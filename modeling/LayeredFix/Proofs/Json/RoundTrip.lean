import LayeredFix.Proofs.Json.Numeral

/-!
# JSON is read back as it was written

A value `Fits` if it nests no deeper than a reader goes and its numbers can be written. Wherever such a value stands in
a text over several lines, it is read back and the reader stops behind it (`Fits.readBack`); so the text that
`Json.render` writes for it holds the value (`parse_render`). The names of an object need not differ for that: of a
repeated name the first place and the last value are read, which is what `uniqueNames` makes of the value.
-/

namespace LayeredFix.Json

/-! ### Strings -/

theorem hexValue?_hexDigit (n : Nat) : Text.hexValue? (Text.hexDigit n) = some (n % 16) := by
  have hall : ∀ k < 16, Text.hexValue? (Nat.digitChar k) = some k := by decide
  exact hall _ (Nat.mod_lt _ (by decide))

/-- Four hexadecimal digits are read if something follows them. -/
theorem readHex4?_hexDigits {n : Nat} (hn : n < 0x10000) {t : Text} (ht : t ≠ []) :
    readHex4? (Text.hexDigits 4 n ++ t) = some (n, t) := by
  obtain ⟨e, t, rfl⟩ := List.exists_cons_of_ne_nil ht
  have hdigits : Text.hexDigits 4 n ++ e :: t = Text.hexDigit (n / 16 / 16 / 16) ::
      Text.hexDigit (n / 16 / 16) :: Text.hexDigit (n / 16) :: Text.hexDigit n :: e :: t := rfl
  rw [hdigits]
  simp only [readHex4?, hexValue?_hexDigit, Option.bind_eq_bind, Option.bind_some, Option.pure_def, Option.some.injEq,
    Prod.mk.injEq, and_true]
  omega

/-- One character of a string is read back. -/
theorem readString_renderChar (opening done : Text) (fuel : Nat) (c : Char) {t : Text} (ht : t ≠ []) :
    readString opening (fuel + 1) done (renderChar c ++ t) = readString opening fuel (c :: done) t := by
  unfold renderChar
  split
  · simp [readString, escaped?]
  · simp [readString, escaped?]
  · simp [readString, escaped?]
  · simp [readString, escaped?]
  · simp [readString, escaped?]
  · simp [readString, escaped?]
  · simp [readString, escaped?]
  · rename_i hquote hback _ _ _ _ _
    split
    · rename_i hlow
      have hhex := readHex4?_hexDigits (n := c.toNat) (by omega) ht
      have hscalar : readScalar c.toNat t = (c, t) := by
        unfold readScalar
        rw [if_neg (by simp; omega), if_neg (by simp; omega), Char.ofNat_toNat]
      simp only [unicodeEscape, List.cons_append, readString]
      simp [hhex, hscalar]
    · rename_i hhigh
      have hq : (c == '"') = false := beq_eq_false_iff_ne.2 fun h => hquote h
      have hb : (c == '\\') = false := beq_eq_false_iff_ne.2 fun h => hback h
      simp [readString, hq, hb, hhigh]

/-- **A string is read back.** -/
theorem readString_flatMap (opening : Text) (s : Text) {fuel : Nat} (done after : Text) (hfuel : s.length < fuel) :
    readString opening fuel done (s.flatMap renderChar ++ '"' :: after) = .ok (done.reverse ++ s, after) := by
  induction s generalizing fuel done with
  | nil =>
    obtain ⟨fuel, rfl⟩ := Nat.exists_eq_succ_of_ne_zero (by omega : fuel ≠ 0)
    simp [readString]
  | cons c s ih =>
    obtain ⟨fuel, rfl⟩ := Nat.exists_eq_succ_of_ne_zero (by omega : fuel ≠ 0)
    rw [List.flatMap_cons, List.append_assoc, readString_renderChar _ _ _ _ (by simp), ih _ (by simpa using hfuel)]
    simp

theorem length_le_flatMap_renderChar (s : Text) : s.length ≤ (s.flatMap renderChar).length := by
  have hpos : ∀ c, 1 ≤ (renderChar c).length := by
    intro c
    unfold renderChar
    split <;> simp [unicodeEscape]
    split <;> simp
  induction s with
  | nil => simp
  | cons c s ih =>
    have := hpos c
    rw [List.flatMap_cons, List.length_append, List.length_cons]
    omega

/-! ### Values that can be written -/

mutual

/-- A value with each name once in every object, as it is read: of a repeated name the first place and the last value
count. -/
def uniqueNames : Json → Json
  | list xs => list (uniqueItems xs)
  | object ms => object (Entries.ofList (uniqueMembers ms))
  | v => v

/-- Items with each name once in every object. -/
def uniqueItems : List Json → List Json
  | [] => []
  | x :: xs => uniqueNames x :: uniqueItems xs

/-- Members with each name once in every object among their values. -/
def uniqueMembers : List (Text × Json) → List (Text × Json)
  | [] => []
  | (name, v) :: ms => (name, uniqueNames v) :: uniqueMembers ms

end

/-- A value that nests no deeper than there is room, and whose numbers can be written. -/
inductive Fits : Nat → Json → Prop
  | null {room : Nat} : Fits room null
  | bool {room : Nat} (b : Bool) : Fits room (bool b)
  | number {room : Nat} {n : Number} : Writable n → Fits room (number n)
  | text {room : Nat} (t : Text) : Fits room (text t)
  | list {room : Nat} {xs : List Json} : (∀ x ∈ xs, Fits room x) → Fits (room + 1) (list xs)
  | object {room : Nat} {ms : List (Text × Json)} : (∀ m ∈ ms, Fits room m.2) → Fits (room + 1) (object ms)

/-! ### How a value begins -/

/-- The characters that a value may begin with. -/
def begins (c : Char) : Bool := c.isDigit || ['-', 'N', 'I', 'n', 't', 'f', '"', '[', '{'].contains c

theorem isBlank_of_begins {c : Char} (h : begins c = true) : isBlank c = false := by
  rw [← Bool.not_eq_true]
  intro hblank
  have hcases : c = ' ' ∨ c = '\t' ∨ c = '\n' ∨ c = '\r' := by simpa [isBlank, or_assoc] using hblank
  rcases hcases with rfl | rfl | rfl | rfl <;> cases h

theorem ne_of_begins {c : Char} (h : begins c = true) : c ≠ ']' ∧ c ≠ '}' := by
  constructor
  · rintro rfl
    cases h
  · rintro rfl
    cases h

theorem signText_text_begins (f : Figures) (negative : Bool) :
    ∃ c t, signText negative ++ f.text = c :: t ∧ (c.isDigit = true ∨ c = '-') := by
  cases negative with
  | true => exact ⟨'-', f.text, rfl, Or.inr rfl⟩
  | false =>
    obtain ⟨c, t, hct⟩ := List.exists_cons_of_ne_nil f.whole_ne_nil
    refine ⟨c, t ++ (f.fractionText ++ f.exponentText), ?_, Or.inl (f.isDigit_of_mem_whole c ?_)⟩
    · simp [signText, Figures.text, hct]
    · rw [hct]
      exact List.mem_cons_self ..

/-- A number begins with a digit, a sign or the first letter of a word. -/
theorem renderNumber_begins {n : Number} (hn : Writable n) :
    ∃ c t, renderNumber n = c :: t ∧ (c.isDigit = true ∨ c = '-' ∨ c = 'N' ∨ c = 'I') := by
  have hfigures (f : Figures) (negative : Bool) : ∃ c t, signText negative ++ f.text = c :: t ∧
      (c.isDigit = true ∨ c = '-' ∨ c = 'N' ∨ c = 'I') := by
    obtain ⟨c, t, hct, hc⟩ := signText_text_begins f negative
    exact ⟨c, t, hct, hc.imp_right Or.inl⟩
  cases n with
  | int n =>
    have h := hfigures (.ofNat n.natAbs) (decide (n < 0))
    rwa [Figures.text_ofNat, ← ofInt_eq] at h
  | real x =>
    cases x with
    | nan => exact ⟨'N', ['a', 'N'], rfl, by simp⟩
    | infinity negative =>
      cases negative with
      | true => exact ⟨'-', "Infinity".toList, rfl, by simp⟩
      | false => exact ⟨'I', "nfinity".toList, rfl, by simp⟩
    | finite negative m e =>
      obtain ⟨f, htext, -⟩ := exists_figures_shortest negative hn
      have h := hfigures f negative
      rwa [htext, ← toList_sign, ← String.toList_append] at h

/-- What is written for a value begins as values do. -/
theorem renderAt_begins {room : Nat} {v : Json} (hv : Fits room v) (level : Nat) (after : Text) :
    ∃ c t, renderAt level v after = c :: t ∧ begins c = true := by
  cases hv with
  | null => exact ⟨'n', "ull".toList ++ after, rfl, by decide⟩
  | bool b =>
    cases b with
    | true => exact ⟨'t', "rue".toList ++ after, rfl, by decide⟩
    | false => exact ⟨'f', "alse".toList ++ after, rfl, by decide⟩
  | number hn =>
    obtain ⟨c, t, hct, hc⟩ := renderNumber_begins hn
    refine ⟨c, t ++ after, by rw [renderAt, hct, List.cons_append], ?_⟩
    unfold begins
    rcases hc with hc | rfl | rfl | rfl
    · rw [hc, Bool.true_or]
    · decide
    · decide
    · decide
  | text t => exact ⟨'"', _, rfl, by decide⟩
  | list => rename_i xs _; cases xs <;> exact ⟨'[', _, rfl, by decide⟩
  | object =>
    rename_i ms _
    cases ms with
    | nil => exact ⟨'{', _, rfl, by decide⟩
    | cons m ms => exact ⟨'{', _, rfl, by decide⟩

/-! ### Values are read back -/

theorem skipBlanks_of_begins {c : Char} (hc : begins c = true) (t : Text) : skipBlanks (c :: t) = c :: t := by
  simp [skipBlanks, isBlank_of_begins hc]

/-- The blanks of a new line are passed over. -/
theorem skipBlanks_newline {level : Nat} {t : Text} (ht : ∀ c, t.head? = some c → isBlank c = false) :
    skipBlanks (newline level ++ t) = t := by
  have hblanks : ∀ c ∈ newline level, isBlank c = true := by
    intro c hc
    rcases List.mem_cons.1 hc with rfl | hc
    · decide
    · rw [List.eq_of_mem_replicate hc]
      decide
  unfold skipBlanks
  rw [List.dropWhile_append_of_pos hblanks]
  cases t with
  | nil => rfl
  | cons c t => rw [List.dropWhile_cons_of_neg (by simp [ht c rfl])]

theorem stops_cons {c : Char} (hc : (c.isDigit || ['.', 'e', 'E'].contains c) = false) (t : Text) :
    Stops (c :: t) := by
  intro d hd
  obtain rfl := Option.some.inj hd
  simpa [not_or] using hc

/-- Wherever a value is written, it is read back with each name once, and reading goes no further. -/
def ReadBack (room : Nat) (v : Json) : Prop :=
  ∀ (level fuel : Nat) (after : Text), Stops after → 2 * (renderAt level v after).length < fuel →
    readValue fuel room (renderAt level v after) = .ok (v.uniqueNames, after)

section
variable {room : Nat}

/-- A value takes up some of the text. -/
theorem length_lt_renderAt {v : Json} (hv : Fits room v) (level : Nat) (after : Text) :
    after.length < (renderAt level v after).length := by
  obtain ⟨c, t, hct, -⟩ := renderAt_begins hv level []
  rw [renderAt_eq, hct, List.length_append, List.length_cons]
  omega

theorem skipBlanks_newline_renderAt {v : Json} (hv : Fits room v) (level lower : Nat) (after : Text) :
    skipBlanks (newline lower ++ renderAt level v after) = renderAt level v after := by
  obtain ⟨c, t, hct, hc⟩ := renderAt_begins hv level after
  refine skipBlanks_newline fun d hd => ?_
  rw [hct] at hd
  exact Option.some.inj hd ▸ isBlank_of_begins hc

variable {fuel : Nat} {t r r' : Text} {v : Json}

theorem readItems_close {done : List Json} (hv : readValue fuel room t = .ok (v, r)) (hr : skipBlanks r = ']' :: r') :
    readItems (fuel + 1) room done t = .ok (list (v :: done).reverse, r') := by
  simp only [readItems, hv, hr]

theorem readItems_comma {done : List Json} (hv : readValue fuel room t = .ok (v, ',' :: r)) :
    readItems (fuel + 1) room done t = readItems fuel room (v :: done) (skipBlanks r) := by
  have hcomma : skipBlanks (',' :: r) = ',' :: r := rfl
  simp only [readItems, hv, hcomma]

/-- Items are read back up to their closing bracket if each of them is. -/
theorem readItems_renderItems {x : Json} {xs : List Json} (hfits : ∀ y ∈ x :: xs, Fits room y)
    (hread : ∀ y ∈ x :: xs, ReadBack room y) (level lower fuel : Nat) (done : List Json) (after : Text)
    (hfuel : 2 * (renderAt level x (renderItems level xs (newline lower ++ ']' :: after))).length + 1 < fuel) :
    readItems fuel room done (renderAt level x (renderItems level xs (newline lower ++ ']' :: after))) =
      .ok (list (done.reverse ++ uniqueItems (x :: xs)), after) := by
  induction xs generalizing x fuel done with
  | nil =>
    obtain ⟨fuel, rfl⟩ := Nat.exists_eq_succ_of_ne_zero (by omega : fuel ≠ 0)
    rw [renderItems] at hfuel ⊢
    have hx := hread x (by simp) level fuel (newline lower ++ ']' :: after) (stops_cons (by decide) _) (by omega)
    rw [readItems_close hx (skipBlanks_newline (by simp; decide))]
    simp [uniqueItems]
  | cons y xs ih =>
    obtain ⟨fuel, rfl⟩ := Nat.exists_eq_succ_of_ne_zero (by omega : fuel ≠ 0)
    rw [renderItems, List.cons_append] at hfuel ⊢
    generalize renderItems level xs (newline lower ++ ']' :: after) = rest at *
    have hlength := length_lt_renderAt (hfits x (by simp)) level (',' :: (newline level ++ renderAt level y rest))
    rw [List.length_cons, List.length_append] at hlength
    have hx := hread x (by simp) level fuel (',' :: (newline level ++ renderAt level y rest))
      (stops_cons (by decide) _) (by omega)
    rw [readItems_comma hx, skipBlanks_newline_renderAt (hfits y (by simp)),
      ih (fun z hz => hfits z (List.mem_cons_of_mem _ hz)) (fun z hz => hread z (List.mem_cons_of_mem _ hz)) fuel _
        (by omega)]
    simp [uniqueItems]

theorem readMembers_close {done : Entries Json} {name : Text} {s : Text}
    (hname : readString ('"' :: t) fuel [] t = .ok (name, ':' :: s))
    (hv : readValue fuel room (skipBlanks s) = .ok (v, r)) (hr : skipBlanks r = '}' :: r') :
    readMembers (fuel + 1) room done ('"' :: t) = .ok (object (Entries.ofList ((name, v) :: done).reverse), r') := by
  have hcolon : skipBlanks (':' :: s) = ':' :: s := rfl
  simp only [readMembers, hname, hcolon, hv, hr]

theorem readMembers_comma {done : Entries Json} {name : Text} {s : Text}
    (hname : readString ('"' :: t) fuel [] t = .ok (name, ':' :: s))
    (hv : readValue fuel room (skipBlanks s) = .ok (v, ',' :: r)) :
    readMembers (fuel + 1) room done ('"' :: t) = readMembers fuel room ((name, v) :: done) (skipBlanks r) := by
  have hcolon : skipBlanks (':' :: s) = ':' :: s := rfl
  have hcomma : skipBlanks (',' :: r) = ',' :: r := rfl
  simp only [readMembers, hname, hcolon, hv, hcomma]

/-- A name is read back. -/
theorem readString_renderString (name after : Text) (fuel : Nat)
    (hfuel : (renderString name ++ after).length ≤ fuel) :
    ∃ t, renderString name ++ after = '"' :: t ∧ readString ('"' :: t) fuel [] t = .ok (name, after) := by
  have hlength := length_le_flatMap_renderChar name
  refine ⟨name.flatMap renderChar ++ '"' :: after, by simp [renderString], ?_⟩
  refine readString_flatMap _ _ _ _ ?_
  simp only [renderString, List.cons_append, List.length_cons, List.length_append] at hfuel
  omega

theorem skipBlanks_space_renderAt (hv : Fits room v) (level : Nat) (after : Text) :
    skipBlanks (' ' :: renderAt level v after) = renderAt level v after := by
  obtain ⟨c, t, hct, hc⟩ := renderAt_begins hv level after
  rw [hct]
  exact skipBlanks_of_begins hc t

/-- Members are read back up to their closing brace if each of their values is. -/
theorem readMembers_renderMembers {name : Text} {ms : List (Text × Json)}
    (hfits : ∀ m ∈ (name, v) :: ms, Fits room m.2) (hread : ∀ m ∈ (name, v) :: ms, ReadBack room m.2)
    (level lower fuel : Nat) (done : Entries Json) (after : Text)
    (hfuel : 2 * (renderString name ++ ':' :: ' ' ::
      renderAt level v (renderMembers level ms (newline lower ++ '}' :: after))).length + 1 < fuel) :
    readMembers fuel room done (renderString name ++ ':' :: ' ' ::
        renderAt level v (renderMembers level ms (newline lower ++ '}' :: after))) =
      .ok (object (Entries.ofList (done.reverse ++ uniqueMembers ((name, v) :: ms))), after) := by
  induction ms generalizing name v fuel done with
  | nil =>
    obtain ⟨fuel, rfl⟩ := Nat.exists_eq_succ_of_ne_zero (by omega : fuel ≠ 0)
    have hv : Fits room v := hfits (name, v) (by simp)
    rw [renderMembers] at hfuel ⊢
    obtain ⟨t, ht, hname⟩ := readString_renderString name
      (':' :: ' ' :: renderAt level v (newline lower ++ '}' :: after)) fuel (by omega)
    simp only [List.length_append, List.length_cons] at hfuel
    have hvalue := hread (name, v) (by simp) level fuel (newline lower ++ '}' :: after) (stops_cons (by decide) _)
      (by dsimp only; omega)
    rw [← skipBlanks_space_renderAt hv] at hvalue
    rw [ht, readMembers_close hname hvalue (skipBlanks_newline (by simp; decide))]
    simp [uniqueMembers]
  | cons m ms ih =>
    obtain ⟨fuel, rfl⟩ := Nat.exists_eq_succ_of_ne_zero (by omega : fuel ≠ 0)
    obtain ⟨next, w⟩ := m
    have hv : Fits room v := hfits (name, v) (by simp)
    rw [renderMembers, List.cons_append, List.cons_append, List.append_assoc] at hfuel ⊢
    generalize hrest : renderString next ++ ':' :: ' ' ::
      renderAt level w (renderMembers level ms (newline lower ++ '}' :: after)) = rest at *
    have hlength := length_lt_renderAt hv level (',' :: (newline level ++ rest))
    obtain ⟨t, ht, hname⟩ := readString_renderString name
      (':' :: ' ' :: renderAt level v (',' :: (newline level ++ rest))) fuel (by omega)
    simp only [List.length_append, List.length_cons] at hfuel hlength
    have hvalue := hread (name, v) (by simp) level fuel (',' :: (newline level ++ rest)) (stops_cons (by decide) _)
      (by dsimp only; omega)
    rw [← skipBlanks_space_renderAt hv] at hvalue
    have hblank : ∀ c, rest.head? = some c → isBlank c = false := by
      rw [← hrest]
      simp [renderString]
      decide
    rw [ht, readMembers_comma hname hvalue, skipBlanks_newline hblank, ← hrest,
      ih (fun z hz => hfits z (List.mem_cons_of_mem _ hz)) (fun z hz => hread z (List.mem_cons_of_mem _ hz)) fuel _
        (by rw [hrest]; omega)]
    simp [uniqueMembers]

theorem readValue_scalar {c : Char} (hc : c ≠ '"' ∧ c ≠ '[' ∧ c ≠ '{') (fuel room : Nat) (t : Text) :
    readValue (fuel + 1) room (c :: t) = readScalarValue (c :: t) := by
  rw [readValue]
  · rintro r ⟨⟩
    exact hc.1 rfl
  · rintro r ⟨⟩
    exact absurd rfl hc.2.1
  · rintro r _ ⟨⟩
    exact absurd rfl hc.2.1
  · rintro r ⟨⟩
    exact absurd rfl hc.2.2
  · rintro r _ ⟨⟩
    exact absurd rfl hc.2.2

theorem readValue_list {c : Char} (hr : skipBlanks r = c :: t) (hc : c ≠ ']') :
    readValue (fuel + 1) (room + 1) ('[' :: r) = readItems fuel room [] (c :: t) := by
  rw [readValue, hr]
  split
  · rename_i heq
    exact absurd (List.cons.inj heq).1 hc
  · rfl

theorem readValue_object {c : Char} (hr : skipBlanks r = c :: t) (hc : c ≠ '}') :
    readValue (fuel + 1) (room + 1) ('{' :: r) = readMembers fuel room [] (c :: t) := by
  rw [readValue, hr]
  split
  · rename_i heq
    exact absurd (List.cons.inj heq).1 hc
  · rfl

/-- **Whatever fits is read back.** -/
theorem Fits.readBack {v : Json} (hv : Fits room v) : ReadBack room v := by
  induction hv with
  | null =>
    intro level fuel after _ hfuel
    obtain ⟨fuel, rfl⟩ := Nat.exists_eq_succ_of_ne_zero (by omega : fuel ≠ 0)
    exact (readValue_scalar (by decide) fuel _ _).trans (readScalarValue_null after)
  | bool b =>
    intro level fuel after _ hfuel
    obtain ⟨fuel, rfl⟩ := Nat.exists_eq_succ_of_ne_zero (by omega : fuel ≠ 0)
    have h := readScalarValue_bool b after
    cases b with
    | true => exact (readValue_scalar (by decide) fuel _ _).trans h
    | false => exact (readValue_scalar (by decide) fuel _ _).trans h
  | number hn =>
    intro level fuel after ha hfuel
    obtain ⟨fuel, rfl⟩ := Nat.exists_eq_succ_of_ne_zero (by omega : fuel ≠ 0)
    have h := readScalarValue_number hn ha
    obtain ⟨c, t, hct, hc⟩ := renderNumber_begins hn
    have hc' : c ≠ '"' ∧ c ≠ '[' ∧ c ≠ '{' := by
      refine ⟨?_, ?_, ?_⟩
      all_goals
        rintro rfl
        revert hc
        decide
    rw [hct] at h
    rw [renderAt, hct, List.cons_append, readValue_scalar hc']
    exact h
  | text s =>
    intro level fuel after _ hfuel
    obtain ⟨fuel, rfl⟩ := Nat.exists_eq_succ_of_ne_zero (by omega : fuel ≠ 0)
    rw [renderAt] at hfuel ⊢
    obtain ⟨t, ht, hs⟩ := readString_renderString s after fuel (by omega)
    rw [ht, readValue, hs]
    rfl
  | @list room xs hfits ih =>
    intro level fuel after _ hfuel
    obtain ⟨fuel, rfl⟩ := Nat.exists_eq_succ_of_ne_zero (by omega : fuel ≠ 0)
    cases xs with
    | nil => rfl
    | cons x xs =>
      rw [renderAt, List.cons_append] at hfuel ⊢
      rw [List.length_cons, List.length_append] at hfuel
      have hx := hfits x (by simp)
      obtain ⟨c, t, hct, hc⟩ := renderAt_begins hx (level + 1)
        (renderItems (level + 1) xs (newline level ++ ']' :: after))
      have hskip := skipBlanks_newline_renderAt hx (level + 1) (level + 1)
        (renderItems (level + 1) xs (newline level ++ ']' :: after))
      rw [readValue_list (hskip.trans hct) (ne_of_begins hc).1, ← hct,
        readItems_renderItems hfits ih (level + 1) level fuel [] after (by omega)]
      rfl
  | @object room ms hfits ih =>
    intro level fuel after _ hfuel
    obtain ⟨fuel, rfl⟩ := Nat.exists_eq_succ_of_ne_zero (by omega : fuel ≠ 0)
    cases ms with
    | nil => rfl
    | cons m ms =>
      obtain ⟨name, v⟩ := m
      rw [renderAt, List.cons_append, List.cons_append, List.append_assoc] at hfuel ⊢
      rw [List.length_cons, List.length_append] at hfuel
      have hback := readMembers_renderMembers hfits ih (level + 1) level fuel [] after (by omega)
      have hopens (u : Text) : renderString name ++ u = '"' :: (name.flatMap renderChar ++ '"' :: u) := by
        simp [renderString]
      rw [hopens] at hback ⊢
      rw [readValue_object (skipBlanks_newline (by simp; decide)) (by decide), hback]
      rfl

end

/-- **What is written is read back**, with each name once in every object. -/
theorem parse_render {v : Json} (hv : Fits maxNesting v) : parse (render v) = .ok v.uniqueNames := by
  have hread := hv.readBack 0 (2 * (render v).length + 2) [] (fun _ h => by cases h) (by unfold render; omega)
  obtain ⟨c, t, hct, hc⟩ := renderAt_begins hv 0 []
  have hskip : skipBlanks (render v) = render v := by
    unfold render
    rw [hct]
    exact skipBlanks_of_begins hc t
  have hmark : c ≠ '\ufeff' := by
    rintro rfl
    revert hc
    decide
  have hok : read (render v) = .ok v.uniqueNames := by
    unfold read
    split
    · rename_i heq
      exact absurd (List.cons.inj (hct.symm.trans heq)).1 hmark
    · rw [hskip, show readValue _ _ (render v) = _ from hread]
      rfl
  unfold parse
  rw [hok]

end LayeredFix.Json
