import LayeredFix.Proofs.Json.Outline
import LayeredFix.Proofs.Text.Part

/-!
# Words in a written JSON text

Outside of strings a JSON text has brackets, commas, numbers and few words. So a stretch without quotes that holds some
other character stands inside of a string, and what stands in front of it belongs to the string too, if only its quote
(`exists_string_of_infix`).
-/

namespace LayeredFix.Json

/-! ### The strings of a value -/

mutual

/-- The texts and the names in a value. -/
def strings : Json → List Text
  | text t => [t]
  | list xs => itemStrings xs
  | object ms => memberStrings ms
  | _ => []

/-- The texts and the names in items. -/
def itemStrings : List Json → List Text
  | [] => []
  | x :: xs => strings x ++ itemStrings xs

/-- The texts and the names in members. -/
def memberStrings : List (Text × Json) → List Text
  | [] => []
  | (name, v) :: ms => name :: (strings v ++ memberStrings ms)

end

/-! ### Stretches without quotes -/

/-- The characters that may stand outside of strings. -/
def isToken (c : Char) : Bool := isNumeral c || "\x7b\x7d[]:, \ntruefalsenull".toList.contains c

/-- In a text every stretch without quotes that holds `d` belongs to one of some strings, with the character in front
of it, and there is no such stretch before the first quote. -/
structure Covered (strings : List Text) (d : Char) (t : Text) : Prop where
  /-- There is none before the first quote. -/
  front : ∀ w, '"' ∉ w → w <+: t → d ∉ w
  /-- It belongs to a string. -/
  inside : ∀ c w, '"' ∉ w → d ∈ w → c :: w <:+: t → ∃ s ∈ strings, c :: w <:+: renderString s

variable {ss : List Text} {d : Char} {t : Text}

theorem covered_nil : Covered ss d [] where
  front w _ hw := by simp [List.prefix_nil.1 hw]
  inside c w _ _ hw := by simp at hw

/-- In front of a text there may be any character but the quote and `d`. -/
theorem Covered.cons {c : Char} (h : Covered ss d t) (hquote : c ≠ '"') (hc : c ≠ d) : Covered ss d (c :: t) where
  front w hw hpre := by
    cases w with
    | nil => exact List.not_mem_nil
    | cons c' w =>
      obtain ⟨rfl, htail⟩ := List.cons_prefix_cons.1 hpre
      rw [List.mem_cons, not_or] at hw ⊢
      exact ⟨Ne.symm hc, h.front w hw.2 htail⟩
  inside c' w hw hd hin := by
    rcases List.infix_cons_iff.1 hin with hpre | hin
    · exact absurd hd (h.front w hw (List.cons_prefix_cons.1 hpre).2)
    · exact h.inside c' w hw hd hin

theorem Covered.tokens {x : Text} (h : Covered ss d t) (hd : isToken d = false) (hx : ∀ c ∈ x, isToken c = true) :
    Covered ss d (x ++ t) := by
  have hquote : isToken '"' = false := by decide
  induction x with
  | nil => exact h
  | cons c x ih =>
    rw [List.forall_mem_cons] at hx
    refine (ih hx.2).cons ?_ ?_
    · rintro rfl
      exact absurd (hx.1.symm.trans hquote) (by decide)
    · rintro rfl
      exact absurd (hx.1.symm.trans hd) (by decide)

theorem infix_cons_append_cons {c : Char} {w u v : Text} (hw : '"' ∉ w) (h : c :: w <:+: u ++ '"' :: v) :
    c :: w <:+: u ++ ['"'] ∨ w <+: v ∨ c :: w <:+: v := by
  induction u with
  | nil =>
    rcases List.infix_cons_iff.1 h with hpre | hin
    · exact Or.inr (Or.inl (List.cons_prefix_cons.1 hpre).2)
    · exact Or.inr (Or.inr hin)
  | cons b u ih =>
    rcases List.infix_cons_iff.1 h with hpre | hin
    · obtain ⟨rfl, htail⟩ := List.cons_prefix_cons.1 hpre
      refine Or.inl (List.IsPrefix.isInfix (List.cons_prefix_cons.2 ⟨rfl, ?_⟩))
      exact (Text.prefix_of_notMem htail hw).trans (List.prefix_append _ _)
    · exact (ih hin).imp_left fun hleft => hleft.trans (List.suffix_cons b _).isInfix

/-- A string in front of a text. -/
theorem Covered.string {s : Text} (h : Covered ss d t) (hs : s ∈ ss) : Covered ss d (renderString s ++ t) where
  front w hw hpre := by
    cases w with
    | nil => exact List.not_mem_nil
    | cons c w =>
      obtain ⟨rfl, -⟩ := List.cons_prefix_cons.1 hpre
      simp at hw
  inside c w hw hdw hin := by
    have hsplit : renderString s ++ t = ('"' :: s.flatMap renderChar) ++ '"' :: t := by simp [renderString]
    rw [hsplit] at hin
    rcases infix_cons_append_cons hw hin with hin | hpre | hin
    · exact ⟨s, hs, hin⟩
    · exact absurd hdw (h.front w hw hpre)
    · exact h.inside c w hw hdw hin

/-! ### Written values -/

theorem isToken_newline (level : Nat) : ∀ c ∈ newline level, isToken c = true := by
  intro c hc
  rcases List.mem_cons.1 hc with rfl | hc
  · decide
  · rw [List.eq_of_mem_replicate hc]
    decide

/-- A value in front of a text adds the strings of the value. -/
def Covering (d : Char) (v : Json) : Prop :=
  ∀ (ss : List Text) (level : Nat) (t : Text), (∀ s ∈ strings v, s ∈ ss) → Covered ss d t →
    Covered ss d (renderAt level v t)

section
variable (hd : isToken d = false)
include hd

theorem covering_of_tokens {v : Json} {x : Text} (hx : ∀ c ∈ x, isToken c = true)
    (hv : ∀ level t, renderAt level v t = x ++ t) : Covering d v := fun _ level t _ ht => by
  rw [hv level t]
  exact ht.tokens hd hx

theorem Covered.token {c : Char} (h : Covered ss d t) (hc : isToken c = true) : Covered ss d (c :: t) :=
  h.tokens (x := [c]) hd (by simpa using hc)

theorem covered_renderItems {xs : List Json} (h : ∀ x ∈ xs, Covering d x) (level : Nat)
    (hss : ∀ s ∈ itemStrings xs, s ∈ ss) (ht : Covered ss d t) : Covered ss d (renderItems level xs t) := by
  induction xs with
  | nil => exact ht
  | cons x xs ih =>
    rw [List.forall_mem_cons] at h
    rw [itemStrings, List.forall_mem_append] at hss
    rw [renderItems, List.cons_append]
    exact ((h.1 ss level _ hss.1 (ih h.2 hss.2)).tokens hd (isToken_newline level)).token hd (by decide)

/-- A member: its name and its value. -/
theorem Covered.member {name : Text} {v : Json} (h : Covering d v) (level : Nat) (hname : name ∈ ss)
    (hss : ∀ s ∈ strings v, s ∈ ss) (ht : Covered ss d t) :
    Covered ss d (newline level ++ renderString name ++ ':' :: ' ' :: renderAt level v t) := by
  have hvalue := ((h ss level t hss ht).token hd (c := ' ') (by decide)).token hd (c := ':') (by decide)
  rw [List.append_assoc]
  exact (hvalue.string hname).tokens hd (isToken_newline level)

theorem covered_renderMembers {ms : List (Text × Json)} (h : ∀ m ∈ ms, Covering d m.2) (level : Nat)
    (hss : ∀ s ∈ memberStrings ms, s ∈ ss) (ht : Covered ss d t) : Covered ss d (renderMembers level ms t) := by
  induction ms with
  | nil => exact ht
  | cons m ms ih =>
    obtain ⟨name, v⟩ := m
    rw [List.forall_mem_cons] at h
    rw [memberStrings, List.forall_mem_cons, List.forall_mem_append] at hss
    rw [renderMembers, List.cons_append]
    exact (Covered.member hd h.1 level hss.1 hss.2.1 (ih h.2 hss.2.2)).token hd (by decide)

theorem Fits.covering {room : Nat} {v : Json} (hv : Fits room v) : Covering d v := by
  induction hv with
  | null => exact covering_of_tokens hd (x := "null".toList) (by decide) fun _ _ => rfl
  | bool b =>
    cases b with
    | true => exact covering_of_tokens hd (x := "true".toList) (by decide) fun _ _ => rfl
    | false => exact covering_of_tokens hd (x := "false".toList) (by decide) fun _ _ => rfl
  | number hn =>
    refine covering_of_tokens hd (fun c hc => ?_) fun _ _ => rfl
    rw [isToken, isNumeral_renderNumber hn c hc, Bool.true_or]
  | text s => exact fun ss level t hss ht => ht.string (hss s (by simp [strings]))
  | @list room xs _ ih =>
    intro ss level t hss ht
    cases xs with
    | nil => exact (ht.token hd (by decide)).token hd (by decide)
    | cons x xs =>
      rw [List.forall_mem_cons] at ih
      rw [strings, itemStrings, List.forall_mem_append] at hss
      have hlast := (ht.token hd (c := ']') (by decide)).tokens hd (isToken_newline level)
      have hitems := covered_renderItems hd ih.2 (level + 1) hss.2 hlast
      rw [renderAt, List.cons_append]
      exact ((ih.1 ss (level + 1) _ hss.1 hitems).tokens hd (isToken_newline _)).token hd (by decide)
  | @object room ms _ ih =>
    intro ss level t hss ht
    cases ms with
    | nil => exact (ht.token hd (by decide)).token hd (by decide)
    | cons m ms =>
      obtain ⟨name, v⟩ := m
      rw [List.forall_mem_cons] at ih
      rw [strings, memberStrings, List.forall_mem_cons, List.forall_mem_append] at hss
      have hlast := (ht.token hd (c := '\x7d') (by decide)).tokens hd (isToken_newline level)
      have hmembers := covered_renderMembers hd ih.2 (level + 1) hss.2.2 hlast
      rw [renderAt, List.cons_append, List.cons_append]
      exact (Covered.member hd ih.1 (level + 1) hss.1 hss.2.1 hmembers).token hd (by decide)

/-- **A stretch without quotes, with a character that stands nowhere outside of strings, belongs to a string**, and so
does the character in front of it. -/
theorem exists_string_of_infix {room : Nat} {v : Json} (hv : Fits room v) {c : Char} {w : Text} (hw : '"' ∉ w)
    (hdw : d ∈ w) (h : c :: w <:+: render v) : ∃ s ∈ strings v, c :: w <:+: renderString s :=
  (hv.covering hd (strings v) 0 [] (fun _ hs => hs) covered_nil).inside c w hw hdw h

end

end LayeredFix.Json
