import LayeredFix.Proofs.Json.RoundTrip

/-!
# The outline of a JSON text

The outline of a text is what is left when everything inside of strings is taken out.
-/

namespace LayeredFix.Json

/-! ### Reading through a text -/

/-- Where in a JSON text a character stands. -/
inductive Spot where
  /-- Outside of strings. -/
  | outside
  /-- Inside of a string. -/
  | inside
  /-- Inside of an escape, of which this much has been read. -/
  | escape (read : Text)
  deriving DecidableEq

/-- The escapes in which characters of a string are written. -/
def escapes : List Text := ('"' :: '\\' :: (List.range 0x20).map Char.ofNat).map renderChar

/-- The characters that may stand outside of strings. -/
def isOuter (c : Char) : Bool := c.isAlphanum || "\x7b\x7d[]:,+-. \n".toList.contains c

/-- The spot behind a character, if it may stand there. -/
def Spot.step : Spot → Char → Option Spot
  | outside, c => if c = '"' then some inside else if isOuter c then some outside else none
  | inside, c =>
    if c = '"' then some outside
    else if c = '\\' then some (escape [c])
    else if c.toNat < 0x20 then none
    else some inside
  | escape w, c =>
    if escapes.contains (w ++ [c]) then some inside
    else if escapes.any fun e => (w ++ [c]).isPrefixOf e then some (escape (w ++ [c]))
    else none

/-- Whether a character belongs to the outline. -/
def Spot.shows : Spot → Char → Bool
  | outside, _ => true
  | inside, c => c = '"'
  | escape _, _ => false

/-- The spot behind a text and the outline of the text. -/
def outline : Spot → Text → Option (Spot × Text)
  | s, [] => some (s, [])
  | s, c :: t => (s.step c).bind fun s' => (outline s' t).map fun x => (x.1, if s.shows c then c :: x.2 else x.2)

theorem outline_cons_iff {s e : Spot} {c : Char} {t k : Text} :
    outline s (c :: t) = some (e, k) ↔ ∃ s' k', s.step c = some s' ∧ outline s' t = some (e, k') ∧
      k = if s.shows c then c :: k' else k' := by
  rw [outline, Option.bind_eq_some_iff]
  constructor
  · rintro ⟨s', hstep, h⟩
    obtain ⟨⟨e', k'⟩, ht, heq⟩ := Option.map_eq_some_iff.1 h
    obtain ⟨rfl, rfl⟩ := Prod.mk.inj heq
    exact ⟨s', k', hstep, ht, rfl⟩
  · rintro ⟨s', k', hstep, h, rfl⟩
    exact ⟨s', hstep, by rw [h]; rfl⟩

theorem outline_cons_of_step {s s' : Spot} {c : Char} (h : s.step c = some s') (t : Text) :
    outline s (c :: t) = (outline s' t).map fun x => (x.1, if s.shows c then c :: x.2 else x.2) := by
  rw [outline, h, Option.bind_some]

/-- A text is gone through piece by piece. -/
theorem outline_append (s : Spot) (t u : Text) :
    outline s (t ++ u) = (outline s t).bind fun x => (outline x.1 u).map fun y => (y.1, x.2 ++ y.2) := by
  induction t generalizing s with
  | nil => simp [outline]
  | cons c t ih =>
    rw [List.cons_append, outline, outline]
    cases s.step c with
    | none => rfl
    | some s' =>
      rw [Option.bind_some, Option.bind_some, ih]
      cases outline s' t with
      | none => rfl
      | some x =>
        simp only [Option.bind_some, Option.map_some, Option.map_map]
        congr 1
        funext y
        simp only [Function.comp]
        split <;> rfl

/-! ### Outside of strings -/

theorem step_outer {c : Char} (hc : isOuter c = true) : Spot.outside.step c = some .outside := by
  have hquote : c ≠ '"' := by
    rintro rfl
    revert hc
    decide
  rw [Spot.step, if_neg hquote, if_pos hc]

/-- Outside of strings a text begins with what its outline begins with. -/
theorem outline_outer_iff {c : Char} (hc : isOuter c = true) {t k : Text} {s : Spot} :
    outline .outside t = some (s, c :: k) ↔ ∃ u, t = c :: u ∧ outline .outside u = some (s, k) := by
  constructor
  · intro h
    cases t with
    | nil => cases h
    | cons d u =>
      obtain ⟨s', k', hstep, hu, hk⟩ := outline_cons_iff.1 h
      obtain ⟨rfl, rfl⟩ := List.cons.inj hk
      rw [step_outer hc] at hstep
      obtain rfl := Option.some.inj hstep
      exact ⟨u, rfl, hu⟩
  · rintro ⟨u, rfl, hu⟩
    rw [outline_cons_of_step (step_outer hc), hu]
    rfl

theorem outline_outer_append_iff {w : Text} (hw : ∀ c ∈ w, isOuter c = true) {t k : Text} {s : Spot} :
    outline .outside t = some (s, w ++ k) ↔ ∃ u, t = w ++ u ∧ outline .outside u = some (s, k) := by
  induction w generalizing t with
  | nil => simp
  | cons c w ih =>
    rw [List.forall_mem_cons] at hw
    rw [List.cons_append, outline_outer_iff hw.1]
    constructor
    · rintro ⟨u, rfl, hu⟩
      obtain ⟨u', rfl, hu'⟩ := (ih hw.2).1 hu
      exact ⟨u', rfl, hu'⟩
    · rintro ⟨u, rfl, hu⟩
      exact ⟨w ++ u, rfl, (ih hw.2).2 ⟨u, rfl, hu⟩⟩

/-! ### Inside of strings -/

/-- A character that is written as it is inside of strings. -/
def IsPlain (c : Char) : Prop := c ≠ '"' ∧ c ≠ '\\' ∧ 0x20 ≤ c.toNat

theorem step_plain {c : Char} (hc : IsPlain c) : Spot.inside.step c = some .inside := by
  rw [Spot.step, if_neg hc.1, if_neg hc.2.1, if_neg (Nat.not_lt.2 hc.2.2)]

/-- A plain character is written as it is. -/
theorem renderChar_of_plain {c : Char} (hc : IsPlain c) : renderChar c = [c] := by
  unfold renderChar
  split
  · exact absurd rfl hc.1
  · exact absurd rfl hc.2.1
  · exact absurd hc.2.2 (by decide)
  · exact absurd hc.2.2 (by decide)
  · exact absurd hc.2.2 (by decide)
  · exact absurd hc.2.2 (by decide)
  · exact absurd hc.2.2 (by decide)
  · rw [if_neg (Nat.not_lt.2 hc.2.2)]

/-- Any other character is written as an escape. -/
theorem renderChar_mem_escapes {c : Char} (hc : ¬ IsPlain c) : renderChar c ∈ escapes := by
  refine List.mem_map_of_mem ?_
  rw [List.mem_cons, List.mem_cons]
  by_cases hquote : c = '"'
  · exact Or.inl hquote
  · by_cases hback : c = '\\'
    · exact Or.inr (Or.inl hback)
    · have hlow : c.toNat < 0x20 := Nat.not_le.1 fun h => hc ⟨hquote, hback, h⟩
      exact Or.inr (Or.inr (List.mem_map.2 ⟨c.toNat, List.mem_range.2 hlow, Char.ofNat_toNat c⟩))

theorem outline_escape : ∀ e ∈ escapes, outline .inside e = some (.inside, []) := by decide +kernel

theorem exists_char_of_escape {e : Text} (he : e ∈ escapes) : ∃ c, renderChar c = e := by
  obtain ⟨c, -, hc⟩ := List.mem_map.1 he
  exact ⟨c, hc⟩

theorem outline_renderChar (c : Char) (t : Text) : outline .inside (renderChar c ++ t) = outline .inside t := by
  by_cases hc : IsPlain c
  · have hshows : Spot.inside.shows c = false := decide_eq_false hc.1
    rw [renderChar_of_plain hc, List.singleton_append, outline_cons_of_step (step_plain hc), hshows]
    simp
  · rw [outline_append, outline_escape _ (renderChar_mem_escapes hc)]
    simp

/-- Behind the end of an escape a string goes on. -/
theorem exists_of_outline_escape {w t k : Text} (h : outline (.escape w) t = some (.outside, k)) :
    ∃ z u, t = z ++ u ∧ w ++ z ∈ escapes ∧ outline .inside u = some (.outside, k) := by
  induction t generalizing w with
  | nil => cases h
  | cons c t ih =>
    obtain ⟨s', k', hstep, hx, rfl⟩ := outline_cons_iff.1 h
    rw [Spot.step] at hstep
    split at hstep
    · rename_i hend
      obtain rfl := Option.some.inj hstep
      exact ⟨[c], t, rfl, List.contains_iff_mem.1 hend, hx⟩
    · split at hstep
      · obtain rfl := Option.some.inj hstep
        obtain ⟨z, u, rfl, hz, hu⟩ := ih hx
        exact ⟨c :: z, u, rfl, by rwa [List.append_assoc] at hz, hu⟩
      · cases hstep

/-- A string goes on up to its closing quote. -/
theorem outline_inside_iff {t k : Text} :
    outline .inside t = some (.outside, '"' :: k) ↔
      ∃ x u : Text, t = x.flatMap renderChar ++ '"' :: u ∧ outline .outside u = some (.outside, k) := by
  constructor
  · intro h
    induction hn : t.length using Nat.strong_induction_on generalizing t with
    | _ n ih =>
      subst hn
      cases t with
      | nil => cases h
      | cons c t =>
        obtain ⟨s', k', hstep, ht, hk⟩ := outline_cons_iff.1 h
        rw [Spot.step] at hstep
        split at hstep
        · rename_i hquote
          subst hquote
          obtain rfl := Option.some.inj hstep
          obtain ⟨-, rfl⟩ := List.cons.inj hk
          exact ⟨[], t, rfl, ht⟩
        · rename_i hquote
          have hshows : Spot.inside.shows c = false := decide_eq_false hquote
          rw [hshows] at hk
          obtain rfl : '"' :: k = k' := hk
          split at hstep
          · obtain rfl := Option.some.inj hstep
            obtain ⟨z, u, rfl, hz, hu⟩ := exists_of_outline_escape ht
            obtain ⟨d, hd⟩ := exists_char_of_escape hz
            obtain ⟨x, v, rfl, hv⟩ := ih u.length (by simp only [List.length_cons, List.length_append]; omega) hu rfl
            refine ⟨d :: x, v, ?_, hv⟩
            rw [List.flatMap_cons, hd]
            simp
          · rename_i hback
            split at hstep
            · cases hstep
            · rename_i hlow
              obtain rfl := Option.some.inj hstep
              obtain ⟨x, v, rfl, hv⟩ := ih t.length (by simp) ht rfl
              refine ⟨c :: x, v, ?_, hv⟩
              rw [List.flatMap_cons, renderChar_of_plain ⟨hquote, hback, Nat.not_lt.1 hlow⟩]
              rfl
  · rintro ⟨x, u, rfl, hu⟩
    induction x with
    | nil =>
      have hstep : Spot.inside.step '"' = some .outside := by decide
      rw [List.flatMap_nil, List.nil_append, outline_cons_of_step hstep, hu]
      rfl
    | cons c x ih => rw [List.flatMap_cons, List.append_assoc, outline_renderChar, ih]

theorem outline_string_iff {t k : Text} :
    outline .outside t = some (.outside, '"' :: '"' :: k) ↔
      ∃ x u, t = renderString x ++ u ∧ outline .outside u = some (.outside, k) := by
  have hstep : Spot.outside.step '"' = some .inside := by decide
  constructor
  · intro h
    cases t with
    | nil => cases h
    | cons c t =>
      obtain ⟨s', k', hs, ht, hk⟩ := outline_cons_iff.1 h
      obtain ⟨rfl, rfl⟩ := List.cons.inj hk
      rw [hstep] at hs
      obtain rfl := Option.some.inj hs
      obtain ⟨x, u, rfl, hu⟩ := outline_inside_iff.1 ht
      exact ⟨x, u, by simp [renderString], hu⟩
  · rintro ⟨x, u, rfl, hu⟩
    have hin := outline_inside_iff.2 ⟨x, u, rfl, hu⟩
    have hquote : renderString x ++ u = '"' :: (x.flatMap renderChar ++ '"' :: u) := by simp [renderString]
    rw [hquote]
    exact outline_cons_iff.2 ⟨_, _, hstep, hin, rfl⟩

/-! ### Values with empty strings -/

mutual

/-- A value with all its texts and names made empty. -/
def blanked : Json → Json
  | text _ => text []
  | list xs => list (blankedItems xs)
  | object ms => object (blankedMembers ms)
  | v => v

/-- Items with all their texts and names made empty. -/
def blankedItems : List Json → List Json
  | [] => []
  | x :: xs => blanked x :: blankedItems xs

/-- Members with all their texts and names made empty. -/
def blankedMembers : List (Text × Json) → List (Text × Json)
  | [] => []
  | (_, v) :: ms => ([], blanked v) :: blankedMembers ms

end

theorem isOuter_newline (level : Nat) : ∀ c ∈ newline level, isOuter c = true := by
  intro c hc
  rcases List.mem_cons.1 hc with rfl | hc
  · decide
  · rw [List.eq_of_mem_replicate hc]
    decide

/-- The characters of numbers. -/
def isNumeral (c : Char) : Bool := c.isDigit || "+-.eNaInfity".toList.contains c

theorem Figures.isNumeral_text (f : Figures) : ∀ c ∈ f.text, isNumeral c = true := by
  have hdigit {c : Char} (hc : c.isDigit = true) : isNumeral c = true := by rw [isNumeral, hc, Bool.true_or]
  intro c hc
  rw [text, List.mem_append, List.mem_append] at hc
  rcases hc with hc | hc | hc
  · exact hdigit (f.isDigit_of_mem_whole c hc)
  · unfold fractionText at hc
    split at hc
    · cases hc
    · rcases List.mem_cons.1 hc with rfl | hc
      · decide
      · exact hdigit (f.isDigit_of_mem_fraction c hc)
  · unfold exponentText at hc
    split at hc
    · cases hc
    · rename_i negative ds hexp
      rcases List.mem_cons.1 hc with rfl | hc
      · decide
      · rcases List.mem_cons.1 hc with rfl | hc
        · cases negative <;> decide
        · exact hdigit ((f.exponent_digits _ _ hexp).2 c hc)

theorem isNumeral_renderNumber {n : Number} (hn : Writable n) : ∀ c ∈ renderNumber n, isNumeral c = true := by
  have hfigures (f : Figures) (negative : Bool) : ∀ c ∈ signText negative ++ f.text, isNumeral c = true := by
    intro c hc
    rcases List.mem_append.1 hc with hc | hc
    · unfold signText at hc
      split at hc
      · rw [List.mem_singleton.1 hc]
        decide
      · cases hc
    · exact f.isNumeral_text c hc
  cases n with
  | int n =>
    rw [renderNumber, ofInt_eq, ← Figures.text_ofNat]
    exact hfigures _ _
  | real x =>
    cases x with
    | nan => decide
    | infinity negative => cases negative <;> decide
    | finite negative m e =>
      obtain ⟨f, htext, -⟩ := exists_figures_shortest negative hn
      rw [renderNumber, DecimalStyle.write, String.toList_append, toList_sign, ← htext]
      exact hfigures _ _

theorem isOuter_renderNumber {n : Number} (hn : Writable n) : ∀ c ∈ renderNumber n, isOuter c = true := by
  intro c hc
  have hother : ∀ c ∈ "+-.eNaInfity".toList, isOuter c = true := by decide
  rcases Bool.or_eq_true_iff.1 (isNumeral_renderNumber hn c hc) with hdigit | hmem
  · unfold isOuter Char.isAlphanum
    rw [hdigit, Bool.or_true, Bool.true_or]
  · exact hother c (List.contains_iff_mem.1 hmem)

/-- Which texts have the outline of a value written somewhere: those in which a value of the same shape is written. -/
def Outlined (v : Json) : Prop := ∀ (level : Nat) (t k : Text),
  outline .outside t = some (.outside, renderAt level v.blanked k) ↔
    ∃ w u, t = renderAt level w u ∧ w.blanked = v.blanked ∧ outline .outside u = some (.outside, k)

/-- A value without strings has an outline of its own. -/
theorem outlined_of_outer {v : Json} {x : Text} (hx : ∀ c ∈ x, isOuter c = true)
    (hv : ∀ level k, renderAt level v k = x ++ k) (hself : v.blanked = v) (hunique : ∀ w, w.blanked = v → w = v) :
    Outlined v := by
  intro level t k
  rw [hself, hv, outline_outer_append_iff hx]
  constructor
  · rintro ⟨u, rfl, hu⟩
    exact ⟨v, u, (hv level u).symm, hself, hu⟩
  · rintro ⟨w, u, rfl, hw, hu⟩
    obtain rfl := hunique w hw
    exact ⟨u, hv level u, hu⟩

/-- A closing bracket on a line of its own. -/
theorem outline_closing_iff {c : Char} (hc : isOuter c = true) (lower : Nat) {t k : Text} :
    outline .outside t = some (.outside, newline lower ++ c :: k) ↔
      ∃ u, t = newline lower ++ c :: u ∧ outline .outside u = some (.outside, k) := by
  rw [outline_outer_append_iff (isOuter_newline lower)]
  constructor
  · rintro ⟨u, rfl, hu⟩
    obtain ⟨v, rfl, hv⟩ := (outline_outer_iff hc).1 hu
    exact ⟨v, rfl, hv⟩
  · rintro ⟨u, rfl, hu⟩
    exact ⟨_, rfl, (outline_outer_iff hc).2 ⟨u, rfl, hu⟩⟩

theorem outline_items_iff {x : Json} {xs : List Json} (h : ∀ y ∈ x :: xs, Outlined y) (level lower : Nat) {t k : Text} :
    outline .outside t = some (.outside,
        renderAt level x.blanked (renderItems level (blankedItems xs) (newline lower ++ ']' :: k))) ↔
      ∃ w ws u, t = renderAt level w (renderItems level ws (newline lower ++ ']' :: u)) ∧
        w.blanked = x.blanked ∧ blankedItems ws = blankedItems xs ∧ outline .outside u = some (.outside, k) := by
  have hx := h x (by simp)
  induction xs generalizing x t with
  | nil =>
    rw [blankedItems, renderItems, hx]
    constructor
    · rintro ⟨w, u, rfl, hw, hu⟩
      obtain ⟨v, rfl, hv⟩ := (outline_closing_iff (by decide) lower).1 hu
      exact ⟨w, [], v, rfl, hw, rfl, hv⟩
    · rintro ⟨w, ws, u, rfl, hw, hws, hu⟩
      cases ws with
      | nil => exact ⟨w, _, rfl, hw, (outline_closing_iff (by decide) lower).2 ⟨u, rfl, hu⟩⟩
      | cons y ws => cases hws
  | cons y xs ih =>
    have htail : ∀ z ∈ y :: xs, Outlined z := fun z hz => h z (List.mem_cons_of_mem _ hz)
    have hy := htail y (by simp)
    rw [blankedItems, renderItems, List.cons_append, hx]
    constructor
    · rintro ⟨w, u, rfl, hw, hu⟩
      obtain ⟨u₁, rfl, hu₁⟩ := (outline_outer_iff (by decide)).1 hu
      obtain ⟨u₂, rfl, hu₂⟩ := (outline_outer_append_iff (isOuter_newline level)).1 hu₁
      obtain ⟨w', ws, u₃, rfl, hw', hws, hu₃⟩ := (ih htail hy).1 hu₂
      exact ⟨w, w' :: ws, u₃, rfl, hw, by rw [blankedItems, hw', hws], hu₃⟩
    · rintro ⟨w, ws, u, rfl, hw, hws, hu⟩
      cases ws with
      | nil => cases hws
      | cons w' ws =>
        obtain ⟨hw', hws⟩ := List.cons.inj hws
        refine ⟨w, _, rfl, hw, (outline_outer_iff (by decide)).2 ⟨_, rfl, ?_⟩⟩
        refine (outline_outer_append_iff (isOuter_newline level)).2 ⟨_, rfl, ?_⟩
        exact (ih htail hy).2 ⟨w', ws, u, rfl, hw', hws, hu⟩

/-- A name with its colon is passed over. -/
theorem outline_name_iff {t k : Text} :
    outline .outside t = some (.outside, renderString [] ++ ':' :: ' ' :: k) ↔
      ∃ x u, t = renderString x ++ ':' :: ' ' :: u ∧ outline .outside u = some (.outside, k) := by
  rw [show renderString [] ++ ':' :: ' ' :: k = '"' :: '"' :: ':' :: ' ' :: k from rfl, outline_string_iff]
  constructor
  · rintro ⟨x, u, rfl, hu⟩
    obtain ⟨u₁, rfl, hu₁⟩ := (outline_outer_iff (by decide)).1 hu
    obtain ⟨u₂, rfl, hu₂⟩ := (outline_outer_iff (by decide)).1 hu₁
    exact ⟨x, u₂, rfl, hu₂⟩
  · rintro ⟨x, u, rfl, hu⟩
    exact ⟨x, _, rfl, (outline_outer_iff (by decide)).2 ⟨_, rfl, (outline_outer_iff (by decide)).2 ⟨_, rfl, hu⟩⟩⟩

theorem outline_members_iff {v : Json} {ms : List (Text × Json)} (hv : Outlined v) (h : ∀ m ∈ ms, Outlined m.2)
    (level lower : Nat) {t k : Text} :
    outline .outside t = some (.outside, renderString [] ++ ':' :: ' ' ::
        renderAt level v.blanked (renderMembers level (blankedMembers ms) (newline lower ++ '}' :: k))) ↔
      ∃ x w ws u, t = renderString x ++ ':' :: ' ' ::
          renderAt level w (renderMembers level ws (newline lower ++ '}' :: u)) ∧
        w.blanked = v.blanked ∧ blankedMembers ws = blankedMembers ms ∧ outline .outside u = some (.outside, k) := by
  rw [outline_name_iff]
  induction ms generalizing v t with
  | nil =>
    rw [blankedMembers, renderMembers]
    constructor
    · rintro ⟨x, u, rfl, hu⟩
      obtain ⟨w, u₁, rfl, hw, hu₁⟩ := (hv ..).1 hu
      obtain ⟨u₂, rfl, hu₂⟩ := (outline_closing_iff (by decide) lower).1 hu₁
      exact ⟨x, w, [], u₂, rfl, hw, rfl, hu₂⟩
    · rintro ⟨x, w, ws, u, rfl, hw, hws, hu⟩
      cases ws with
      | nil =>
        exact ⟨x, _, rfl, (hv ..).2 ⟨w, _, rfl, hw, (outline_closing_iff (by decide) lower).2 ⟨u, rfl, hu⟩⟩⟩
      | cons m ws => cases hws
  | cons m ms ih =>
    obtain ⟨name, next⟩ := m
    rw [List.forall_mem_cons] at h
    rw [blankedMembers, renderMembers, List.cons_append, List.cons_append, List.append_assoc]
    constructor
    · rintro ⟨x, u, rfl, hu⟩
      obtain ⟨w, u₁, rfl, hw, hu₁⟩ := (hv ..).1 hu
      obtain ⟨u₂, rfl, hu₂⟩ := (outline_outer_iff (by decide)).1 hu₁
      obtain ⟨u₃, rfl, hu₃⟩ := (outline_outer_append_iff (isOuter_newline level)).1 hu₂
      obtain ⟨x', w', ws, u₄, rfl, hw', hws, hu₄⟩ := (ih h.1 h.2).1 (outline_name_iff.1 hu₃)
      refine ⟨x, w, (x', w') :: ws, u₄, ?_, hw, by rw [blankedMembers, hw', hws], hu₄⟩
      simp [renderMembers]
    · rintro ⟨x, w, ws, u, rfl, hw, hws, hu⟩
      cases ws with
      | nil => cases hws
      | cons m ws =>
        obtain ⟨x', w'⟩ := m
        obtain ⟨hm, hws⟩ := List.cons.inj hws
        refine ⟨x, _, rfl, (hv ..).2 ⟨w, _, rfl, hw, ?_⟩⟩
        rw [renderMembers, List.cons_append, List.cons_append, List.append_assoc]
        refine (outline_outer_iff (by decide)).2 ⟨_, rfl, ?_⟩
        refine (outline_outer_append_iff (isOuter_newline level)).2 ⟨_, rfl, ?_⟩
        exact outline_name_iff.2 ((ih h.1 h.2).2 ⟨x', w', ws, u, rfl, (Prod.mk.inj hm).2, hws, hu⟩)

theorem blanked_eq_list {w : Json} {xs : List Json} (h : w.blanked = list (blankedItems xs)) :
    ∃ ys, w = list ys ∧ blankedItems ys = blankedItems xs := by
  cases w with
  | list ys => exact ⟨ys, rfl, Json.list.inj h⟩
  | _ => cases h

theorem blanked_eq_object {w : Json} {ms : List (Text × Json)} (h : w.blanked = object (blankedMembers ms)) :
    ∃ ns, w = object ns ∧ blankedMembers ns = blankedMembers ms := by
  cases w with
  | object ns => exact ⟨ns, rfl, Json.object.inj h⟩
  | _ => cases h

/-- A value with neither texts nor parts is the only one of its shape. -/
theorem eq_of_blanked_eq {v w : Json} (h : w.blanked = v) (hparts : ∀ t, v ≠ text t)
    (hitems : ∀ xs, v ≠ list xs) (hmembers : ∀ ms, v ≠ object ms) : w = v := by
  cases w with
  | text t => exact absurd h.symm (hparts _)
  | list xs => exact absurd h.symm (hitems _)
  | object ms => exact absurd h.symm (hmembers _)
  | _ => exact h

/-- **The outline of a written value says where its strings are**: a text has this outline just if a value of the same
shape is written in it. -/
theorem Fits.outlined {room : Nat} {v : Json} (hv : Fits room v) : Outlined v := by
  induction hv with
  | null =>
    exact outlined_of_outer (x := "null".toList) (by decide) (fun _ _ => rfl) rfl fun w hw =>
      eq_of_blanked_eq hw (by simp) (by simp) (by simp)
  | bool b =>
    cases b with
    | true =>
      exact outlined_of_outer (x := "true".toList) (by decide) (fun _ _ => rfl) rfl fun w hw =>
        eq_of_blanked_eq hw (by simp) (by simp) (by simp)
    | false =>
      exact outlined_of_outer (x := "false".toList) (by decide) (fun _ _ => rfl) rfl fun w hw =>
        eq_of_blanked_eq hw (by simp) (by simp) (by simp)
  | number hn =>
    exact outlined_of_outer (isOuter_renderNumber hn) (fun _ _ => rfl) rfl fun w hw =>
      eq_of_blanked_eq hw (by simp) (by simp) (by simp)
  | text s =>
    intro level t k
    show outline .outside t = some (.outside, '"' :: '"' :: k) ↔ _
    rw [outline_string_iff]
    constructor
    · rintro ⟨x, u, rfl, hu⟩
      exact ⟨.text x, u, rfl, rfl, hu⟩
    · rintro ⟨w, u, rfl, hw, hu⟩
      cases w with
      | text x => exact ⟨x, u, rfl, hu⟩
      | _ => cases hw
  | @list room xs _ ih =>
    cases xs with
    | nil =>
      refine outlined_of_outer (x := ['[', ']']) (by decide) (fun _ _ => rfl) rfl fun w hw => ?_
      obtain ⟨ys, rfl, hys⟩ := @blanked_eq_list w [] hw
      cases ys with
      | nil => rfl
      | cons y ys => cases hys
    | cons x xs =>
      intro level t k
      rw [blanked, blankedItems, renderAt, List.cons_append, outline_outer_iff (by decide)]
      constructor
      · rintro ⟨u, rfl, hu⟩
        obtain ⟨u₁, rfl, hu₁⟩ := (outline_outer_append_iff (isOuter_newline _)).1 hu
        obtain ⟨w, ws, u₂, rfl, hw, hws, hu₂⟩ := (outline_items_iff ih (level + 1) level).1 hu₁
        exact ⟨.list (w :: ws), u₂, rfl, by rw [blanked, blankedItems, hw, hws], hu₂⟩
      · rintro ⟨w, u, rfl, hw, hu⟩
        obtain ⟨ys, rfl, hys⟩ := @blanked_eq_list w (x :: xs) hw
        cases ys with
        | nil => cases hys
        | cons y ys =>
          obtain ⟨hy, hys⟩ := List.cons.inj hys
          refine ⟨_, rfl, (outline_outer_append_iff (isOuter_newline _)).2 ⟨_, rfl, ?_⟩⟩
          exact (outline_items_iff ih (level + 1) level).2 ⟨y, ys, u, rfl, hy, hys, hu⟩
  | @object room ms _ ih =>
    cases ms with
    | nil =>
      refine outlined_of_outer (x := ['\x7b', '\x7d']) (by decide) (fun _ _ => rfl) rfl fun w hw => ?_
      obtain ⟨ns, rfl, hns⟩ := @blanked_eq_object w [] hw
      cases ns with
      | nil => rfl
      | cons n ns => cases hns
    | cons m ms =>
      obtain ⟨name, v⟩ := m
      rw [List.forall_mem_cons] at ih
      intro level t k
      rw [blanked, blankedMembers, renderAt, List.cons_append, List.cons_append, List.append_assoc,
        outline_outer_iff (by decide)]
      constructor
      · rintro ⟨u, rfl, hu⟩
        obtain ⟨u₁, rfl, hu₁⟩ := (outline_outer_append_iff (isOuter_newline _)).1 hu
        obtain ⟨x, w, ws, u₂, rfl, hw, hws, hu₂⟩ := (outline_members_iff ih.1 ih.2 (level + 1) level).1 hu₁
        refine ⟨.object ((x, w) :: ws), u₂, ?_, by rw [blanked, blankedMembers, hw, hws], hu₂⟩
        simp [renderAt]
      · rintro ⟨w, u, rfl, hw, hu⟩
        obtain ⟨ns, rfl, hns⟩ := @blanked_eq_object w ((name, v) :: ms) hw
        cases ns with
        | nil => cases hns
        | cons n ns =>
          obtain ⟨x, w⟩ := n
          obtain ⟨hn, hns⟩ := List.cons.inj hns
          rw [renderAt, List.cons_append, List.cons_append, List.append_assoc]
          refine ⟨_, rfl, (outline_outer_append_iff (isOuter_newline _)).2 ⟨_, rfl, ?_⟩⟩
          exact (outline_members_iff ih.1 ih.2 (level + 1) level).2 ⟨x, w, ns, u, rfl, (Prod.mk.inj hn).2, hns, hu⟩

/-! ### Texts with the outline of an object -/

theorem fitsItems_of_blanked {room : Nat} {xs ys : List Json} (hxs : ∀ x ∈ xs, ∀ w, w.blanked = x.blanked → Fits room w)
    (h : blankedItems ys = blankedItems xs) : ∀ y ∈ ys, Fits room y := by
  induction xs generalizing ys with
  | nil =>
    cases ys with
    | nil => simp
    | cons y ys => cases h
  | cons x xs ih =>
    cases ys with
    | nil => cases h
    | cons y ys =>
      obtain ⟨hy, hys⟩ := List.cons.inj h
      rw [List.forall_mem_cons] at hxs ⊢
      exact ⟨hxs.1 y hy, ih hxs.2 hys⟩

theorem fitsMembers_of_blanked {room : Nat} {ms ns : List (Text × Json)}
    (hms : ∀ m ∈ ms, ∀ w, w.blanked = m.2.blanked → Fits room w) (h : blankedMembers ns = blankedMembers ms) :
    ∀ n ∈ ns, Fits room n.2 := by
  induction ms generalizing ns with
  | nil =>
    cases ns with
    | nil => simp
    | cons n ns => cases h
  | cons m ms ih =>
    cases ns with
    | nil => cases h
    | cons n ns =>
      obtain ⟨hn, hns⟩ := List.cons.inj h
      rw [List.forall_mem_cons] at hms ⊢
      exact ⟨hms.1 n.2 (Prod.mk.inj hn).2, ih hms.2 hns⟩

/-- Whether a value fits does not depend on its strings. -/
theorem Fits.of_blanked {room : Nat} {v w : Json} (hv : Fits room v) (h : w.blanked = v.blanked) : Fits room w := by
  induction hv generalizing w with
  | null =>
    obtain rfl := eq_of_blanked_eq (show w.blanked = Json.null from h) (by simp) (by simp) (by simp)
    exact .null
  | bool b =>
    obtain rfl := eq_of_blanked_eq (show w.blanked = Json.bool b from h) (by simp) (by simp) (by simp)
    exact .bool b
  | @number _ n hn =>
    obtain rfl := eq_of_blanked_eq (show w.blanked = Json.number n from h) (by simp) (by simp) (by simp)
    exact .number hn
  | text t =>
    cases w with
    | text x => exact .text x
    | _ => cases h
  | list _ ih =>
    obtain ⟨ys, rfl, hys⟩ := blanked_eq_list h
    exact .list (fitsItems_of_blanked (fun x hx w hw => ih x hx hw) hys)
  | object _ ih =>
    obtain ⟨ns, rfl, hns⟩ := blanked_eq_object h
    exact .object (fitsMembers_of_blanked (fun m hm w hw => ih m hm hw) hns)

/-- Outside of strings every character shows. -/
theorem eq_nil_of_outline {t : Text} {s : Spot} (h : outline .outside t = some (s, [])) : t = [] := by
  cases t with
  | nil => rfl
  | cons c t =>
    obtain ⟨s', k, -, -, hk⟩ := outline_cons_iff.1 h
    cases hk

variable {ms : List (Text × Json)} {t : Text}

theorem outline_render {v : Json} (hv : Fits maxNesting v) :
    outline .outside (render v) = some (.outside, renderAt 0 v.blanked []) :=
  (hv.outlined 0 _ []).2 ⟨v, [], rfl, rfl, rfl⟩

/-- **A text with the outline of a written object holds an object.** -/
theorem parse_of_outline (h : Fits maxNesting (.object ms))
    (ht : outline .outside t = outline .outside (render (.object ms))) : ∃ ns, parse t = .ok (.object ns) := by
  rw [outline_render h] at ht
  obtain ⟨w, u, rfl, hw, hu⟩ := (h.outlined 0 t []).1 ht
  obtain rfl := eq_nil_of_outline hu
  obtain ⟨ns, rfl, -⟩ := blanked_eq_object hw
  exact ⟨_, parse_render (h.of_blanked hw)⟩

end LayeredFix.Json
