import LayeredFix.Json.Parser
import LayeredFix.Json.Printer
import LayeredFix.Proofs.Number.Shortest

/-!
# Numbers in JSON are read back

A number in JSON is written with figures: digits, a point with digits after it, an exponent. `Figures` holds them, with
no zero in front of other digits, and `Figures.readNumber_text` says what is read from them. `exists_figures` finds
the figures in each of the forms in which a floating-point number is written; they have the value of its shortest
decimal, so the number is read back (`readScalarValue_number`).
-/

namespace LayeredFix

namespace Text

/-! ### Digits -/

theorem digitsToNat_from (n : Nat) (t : Text) :
    t.foldl (fun n c => 10 * n + (c.toNat - '0'.toNat)) n = n * 10 ^ t.length + digitsToNat t := by
  unfold digitsToNat
  induction t generalizing n with
  | nil => simp
  | cons c t ih =>
    rw [List.foldl_cons, List.foldl_cons, ih, ih (10 * 0 + _), List.length_cons, Nat.pow_succ]
    ring

/-- The value of a row of digits after another. -/
theorem digitsToNat_append (u v : Text) : digitsToNat (u ++ v) = digitsToNat u * 10 ^ v.length + digitsToNat v := by
  rw [digitsToNat, List.foldl_append, digitsToNat_from]
  rfl

theorem digitsToNat_zeros (k : Nat) : digitsToNat (List.replicate k '0') = 0 := by
  induction k with
  | zero => rfl
  | succ k ih => rw [List.replicate_succ', digitsToNat_append, ih]; rfl

theorem digitsToNat_toDigits (n : Nat) : digitsToNat (Nat.toDigits 10 n) = n :=
  Nat.ofDigitChars_toDigits (by decide) (le_refl _)

theorem digitValue_le {c : Char} (h : c.isDigit = true) : c.toNat - '0'.toNat ≤ 9 := by
  have h' := (Char.isDigit_iff_toNat.1 h).2
  have hnine : '9'.toNat = 57 := rfl
  have hzero : '0'.toNat = 48 := rfl
  omega

theorem digitsToNat_lt {t : Text} (h : ∀ c ∈ t, c.isDigit = true) : digitsToNat t < 10 ^ t.length := by
  induction t with
  | nil => decide
  | cons c t ih =>
    rw [List.forall_mem_cons] at h
    have hc := digitValue_le h.1
    have hsplit := digitsToNat_append [c] t
    have hone : digitsToNat [c] = c.toNat - '0'.toNat := by simp [digitsToNat]
    rw [List.singleton_append, hone] at hsplit
    have ht := ih h.2
    rw [hsplit, List.length_cons, Nat.pow_succ]
    nlinarith

theorem isDigit_of_mem_toDigits {n : Nat} {c : Char} (h : c ∈ Nat.toDigits 10 n) : c.isDigit = true :=
  Nat.isDigit_of_mem_toDigits (by decide) (le_refl _) h

/-- A positive number does not begin with a zero. -/
theorem head?_toDigits {n : Nat} (hn : 0 < n) :
    ∃ c t, Nat.toDigits 10 n = c :: t ∧ c ≠ '0' ∧ c.isDigit = true := by
  obtain ⟨c, t, hct⟩ := List.exists_cons_of_ne_nil (Nat.toDigits_ne_nil (b := 10) (n := n))
  have hdigits : ∀ d ∈ c :: t, d.isDigit = true := fun d hd => isDigit_of_mem_toDigits (n := n) (hct ▸ hd)
  refine ⟨c, t, hct, ?_, hdigits c (List.mem_cons_self ..)⟩
  rintro rfl
  have hvalue := digitsToNat_toDigits n
  have hlow := Binary64.pow_digitCount_le hn
  unfold Binary64.digitCount at hlow
  rw [hct] at hvalue hlow
  have hlt := digitsToNat_lt fun d hd => hdigits d (List.mem_cons_of_mem _ hd)
  have hzero : digitsToNat ('0' :: t) = digitsToNat t := rfl
  rw [List.length_cons, Nat.add_sub_cancel] at hlow
  omega

end Text

namespace Json

/-! ### The parts of a numeral -/

/-- A text does not go on with a numeral: it does not begin with a digit, a point or the letter of an exponent. -/
def Stops (t : Text) : Prop := ∀ c, t.head? = some c → c.isDigit = false ∧ c ≠ '.' ∧ c ≠ 'e' ∧ c ≠ 'E'

theorem takeWhile_digits {ds t : Text} (hds : ∀ c ∈ ds, c.isDigit = true)
    (ht : ∀ c, t.head? = some c → c.isDigit = false) :
    (ds ++ t).takeWhile Char.isDigit = ds ∧ (ds ++ t).dropWhile Char.isDigit = t := by
  rw [List.takeWhile_append_of_pos hds, List.dropWhile_append_of_pos hds]
  cases t with
  | nil => simp
  | cons c t =>
    have hc := ht c rfl
    simp [hc]

theorem readFraction_of_stops {t : Text} (ht : ∀ c, t.head? = some c → c ≠ '.') : readFraction t = ([], t) := by
  unfold readFraction
  split
  · rename_i t'
    exact absurd rfl (ht '.' rfl)
  · rfl

theorem readFraction_point {ds t : Text} (hne : ds ≠ []) (hds : ∀ c ∈ ds, c.isDigit = true)
    (ht : ∀ c, t.head? = some c → c.isDigit = false) : readFraction ('.' :: (ds ++ t)) = (ds, t) := by
  obtain ⟨htake, hdrop⟩ := takeWhile_digits hds ht
  show (if ((ds ++ t).takeWhile Char.isDigit).isEmpty then _ else _) = _
  rw [htake, hdrop, if_neg (by simpa using hne)]

theorem readExponent_of_stops {t : Text} (ht : ∀ c, t.head? = some c → c ≠ 'e' ∧ c ≠ 'E') :
    readExponent t = (none, t) := by
  unfold readExponent
  split
  · rename_i c t'
    obtain ⟨he, hE⟩ := ht c rfl
    rw [if_neg (by simp [he, hE])]
  · rfl

theorem readExponent_sign {negative : Bool} {ds t : Text} (hne : ds ≠ []) (hds : ∀ c ∈ ds, c.isDigit = true)
    (ht : ∀ c, t.head? = some c → c.isDigit = false) :
    readExponent ('e' :: (if negative then '-' else '+') :: (ds ++ t)) =
      (some (if negative then -(Text.digitsToNat ds : Int) else Text.digitsToNat ds), t) := by
  obtain ⟨htake, hdrop⟩ := takeWhile_digits hds ht
  unfold readExponent
  cases negative with
  | true =>
    simp only [if_true, beq_self_eq_true, Bool.true_or]
    rw [htake, hdrop, if_neg (by simpa using hne)]
  | false =>
    simp only [Bool.false_eq_true, if_false, beq_self_eq_true, Bool.true_or, if_true]
    rw [htake, hdrop, if_neg (by simpa using hne)]

/-! ### Whole numerals -/

/-- The figures of a numeral: digits before the point, digits after it, and an exponent with its sign. No zero stands
in front of other digits. -/
structure Figures where
  /-- The digits before the point. -/
  whole : Text
  /-- The digits after the point; if there are none, there is no point. -/
  fraction : Text
  /-- Whether the exponent is negative, and its digits. -/
  exponent : Option (Bool × Text)
  /-- There is a digit before the point. -/
  whole_ne_nil : whole ≠ []
  /-- Before the point stand digits. -/
  isDigit_of_mem_whole : ∀ c ∈ whole, c.isDigit = true
  /-- A zero in front stands alone. -/
  zero_alone : whole.head? = some '0' → whole = ['0']
  /-- After the point stand digits. -/
  isDigit_of_mem_fraction : ∀ c ∈ fraction, c.isDigit = true
  /-- An exponent has digits. -/
  exponent_digits : ∀ negative ds, exponent = some (negative, ds) → ds ≠ [] ∧ ∀ c ∈ ds, c.isDigit = true

namespace Figures

/-- The point and the digits after it. -/
def fractionText (f : Figures) : Text := if f.fraction = [] then [] else '.' :: f.fraction

/-- The letter of the exponent, its sign and its digits. -/
def exponentText (f : Figures) : Text :=
  match f.exponent with
  | none => []
  | some (negative, ds) => 'e' :: (if negative then '-' else '+') :: ds

/-- The numeral. -/
def text (f : Figures) : Text := f.whole ++ (f.fractionText ++ f.exponentText)

/-- The exponent, if there is one. -/
def power? (f : Figures) : Option Int :=
  f.exponent.map fun x => if x.1 then -(Text.digitsToNat x.2 : Int) else Text.digitsToNat x.2

/-- The number without its sign. -/
def value (f : Figures) : ℚ :=
  Text.digitsToNat (f.whole ++ f.fraction) * 10 ^ (f.power?.getD 0 - f.fraction.length)

variable (f : Figures) {after : Text}

theorem isDigit_head_exponentText (ha : Stops after) {c : Char} (h : (f.exponentText ++ after).head? = some c) :
    c.isDigit = false ∧ c ≠ '.' := by
  unfold exponentText at h
  split at h
  · exact ⟨(ha c h).1, (ha c h).2.1⟩
  · rw [List.cons_append, List.head?_cons] at h
    cases h
    decide

theorem isDigit_head_fractionText (ha : Stops after) {c : Char}
    (h : (f.fractionText ++ (f.exponentText ++ after)).head? = some c) : c.isDigit = false := by
  unfold fractionText at h
  split at h
  · exact (f.isDigit_head_exponentText ha h).1
  · rw [List.cons_append, List.head?_cons] at h
    cases h
    decide

theorem readFraction_text (ha : Stops after) :
    readFraction (f.fractionText ++ (f.exponentText ++ after)) = (f.fraction, f.exponentText ++ after) := by
  have hnext {c : Char} (h : (f.exponentText ++ after).head? = some c) := f.isDigit_head_exponentText ha h
  unfold fractionText
  split
  · rename_i hnil
    rw [hnil]
    exact readFraction_of_stops fun c hc => (hnext hc).2
  · rename_i hne
    exact readFraction_point hne f.isDigit_of_mem_fraction fun c hc => (hnext hc).1

theorem readExponent_text (ha : Stops after) : readExponent (f.exponentText ++ after) = (f.power?, after) := by
  unfold exponentText power?
  split
  · rename_i hnone
    rw [hnone]
    exact readExponent_of_stops fun c hc => (ha c hc).2.2
  · rename_i negative ds hsome
    obtain ⟨hne, hds⟩ := f.exponent_digits _ _ hsome
    rw [hsome]
    exact readExponent_sign hne hds fun c hc => (ha c hc).1

theorem whole_text (ha : Stops after) :
    (match f.text ++ after with
      | '0' :: _ => ['0']
      | _ => (f.text ++ after).takeWhile Char.isDigit) = f.whole := by
  have hsplit : f.text ++ after = f.whole ++ (f.fractionText ++ (f.exponentText ++ after)) := by
    simp only [text, List.append_assoc]
  have htake := (takeWhile_digits f.isDigit_of_mem_whole fun _ => f.isDigit_head_fractionText ha).1
  have hzero := f.zero_alone
  obtain ⟨c, t, hct⟩ := List.exists_cons_of_ne_nil f.whole_ne_nil
  rw [hsplit]
  split
  · rename_i heq
    rw [hct] at heq hzero ⊢
    cases heq
    exact (hzero rfl).symm
  · exact htake

/-- A numeral is read: its figures make an integer, or a number that is rounded. -/
theorem readNumber_text (ha : Stops after) (opening : Text) (negative : Bool) :
    readNumber opening negative (f.text ++ after) =
      if f.fraction.isEmpty && f.power?.isNone then
        if Number.maxDigits < f.whole.length then .error (.tooManyDigits f.whole.length)
        else
          let n : Int := Text.digitsToNat f.whole
          .ok (int (if negative then -n else n), after)
      else
        .ok (number (.real (Binary64.ofDecimal negative (Text.digitsToNat (f.whole ++ f.fraction))
          (f.power?.getD 0 - f.fraction.length))), after) := by
  have hdrop : (f.text ++ after).drop f.whole.length = f.fractionText ++ (f.exponentText ++ after) := by
    simp only [text, List.append_assoc, List.drop_left]
  unfold readNumber
  extract_lets +onlyGivenNames whole
  have hwhole : whole = f.whole := f.whole_text ha
  clear_value whole
  subst hwhole
  rw [if_neg (by simpa using f.whole_ne_nil)]
  simp only [hdrop, f.readFraction_text ha, f.readExponent_text ha]

end Figures

/-! ### Signs and words -/

/-- The sign of a negative number. -/
def signText (negative : Bool) : Text := if negative then ['-'] else []

/-- What begins with a digit is no word, with or without a sign. -/
theorem readScalarValue_digit {c : Char} (hc : c.isDigit = true) (negative : Bool) (t : Text) :
    readScalarValue (signText negative ++ c :: t) =
      readNumber (signText negative ++ c :: t) negative (c :: t) := by
  have hne {d : Char} (hd : d.isDigit = false) : (d == c) = false := by
    rw [beq_eq_false_iff_ne]
    rintro rfl
    rw [hc] at hd
    cases hd
  have hn : ('n' == c) = false := hne (by decide)
  have ht : ('t' == c) = false := hne (by decide)
  have hf : ('f' == c) = false := hne (by decide)
  have hN : ('N' == c) = false := hne (by decide)
  have hI : ('I' == c) = false := hne (by decide)
  have hm : ('-' == c) = false := hne (by decide)
  unfold readScalarValue signText
  cases negative with
  | true => simp [List.find?, List.isPrefixOf, hI]
  | false =>
    simp only [Bool.false_eq_true, if_false, List.nil_append]
    simp only [List.find?, String.reduceToList, List.isPrefixOf, hn, ht, hf, hN, hI, hm, Bool.false_and]
    split
    · rename_i heq
      cases heq
      cases hc
    · rfl

theorem readScalarValue_null (t : Text) : readScalarValue ("null".toList ++ t) = .ok (null, t) := by
  simp [readScalarValue, List.find?, List.isPrefixOf]
  rfl

theorem readScalarValue_bool (b : Bool) (t : Text) :
    readScalarValue ((if b then "true".toList else "false".toList) ++ t) = .ok (bool b, t) := by
  cases b <;> simp [readScalarValue, List.find?, List.isPrefixOf] <;> rfl

theorem readScalarValue_nan (t : Text) : readScalarValue ("NaN".toList ++ t) = .ok (number (.real .nan), t) := by
  simp [readScalarValue, List.find?, List.isPrefixOf]
  rfl

theorem readScalarValue_infinity (negative : Bool) (t : Text) :
    readScalarValue (signText negative ++ "Infinity".toList ++ t) = .ok (number (.real (.infinity negative)), t) := by
  cases negative <;> simp [readScalarValue, signText, List.find?, List.isPrefixOf] <;> rfl

/-! ### Integers -/

/-- The figures of a natural number. -/
def Figures.ofNat (n : Nat) : Figures where
  whole := Nat.toDigits 10 n
  fraction := []
  exponent := none
  whole_ne_nil := Nat.toDigits_ne_nil
  isDigit_of_mem_whole _ := Text.isDigit_of_mem_toDigits
  zero_alone h := by
    rcases Nat.eq_zero_or_pos n with rfl | hn
    · rfl
    · obtain ⟨c, t, hct, hc, -⟩ := Text.head?_toDigits hn
      rw [hct] at h
      exact absurd (Option.some.inj h) hc
  isDigit_of_mem_fraction := by simp
  exponent_digits := by simp

theorem Figures.text_ofNat (n : Nat) : (Figures.ofNat n).text = Nat.toDigits 10 n := by
  simp [text, fractionText, exponentText, ofNat]

/-- A numeral with a sign is read by its figures. -/
theorem readScalarValue_text (f : Figures) (negative : Bool) (after : Text) :
    readScalarValue (signText negative ++ f.text ++ after) =
      readNumber (signText negative ++ f.text ++ after) negative (f.text ++ after) := by
  obtain ⟨c, t, hct⟩ := List.exists_cons_of_ne_nil f.whole_ne_nil
  have hc := f.isDigit_of_mem_whole c (hct ▸ List.mem_cons_self ..)
  have htext : f.text ++ after = c :: (t ++ (f.fractionText ++ (f.exponentText ++ after))) := by
    simp only [Figures.text, hct, List.cons_append, List.append_assoc]
  rw [List.append_assoc, htext]
  exact readScalarValue_digit hc negative _

theorem ofInt_eq (n : Int) : Text.ofInt n = signText (decide (n < 0)) ++ Nat.toDigits 10 n.natAbs := by
  cases n with
  | ofNat m =>
    rw [decide_eq_false (show ¬Int.ofNat m < 0 from Int.not_lt.2 (Int.natCast_nonneg m))]
    exact Nat.toList_repr
  | negSucc m =>
    rw [decide_eq_true (Int.negSucc_lt_zero m)]
    show ("-" ++ Nat.repr (m + 1)).toList = _
    rw [String.toList_append, Nat.toList_repr]
    rfl

/-- An integer is read back if it has not too many digits. -/
theorem readScalarValue_int {n : Int} (hn : n.natAbs < 10 ^ Number.maxDigits) {after : Text} (ha : Stops after) :
    readScalarValue (Text.ofInt n ++ after) = .ok (int n, after) := by
  have hlength : ¬Number.maxDigits < (Nat.toDigits 10 n.natAbs).length := by
    rw [not_lt, Nat.length_toDigits_le_iff (by decide) (by decide)]
    exact hn
  rw [ofInt_eq, ← Figures.text_ofNat, readScalarValue_text, Figures.readNumber_text _ ha]
  simp only [Figures.ofNat, Figures.power?, Option.map_none, Option.isNone_none, List.isEmpty_nil, Bool.and_self,
    if_true, if_neg hlength, Text.digitsToNat_toDigits]
  have hsigned : (if decide (n < 0) = true then -(n.natAbs : Int) else n.natAbs) = n := by
    split
    · rename_i h
      rw [decide_eq_true_iff] at h
      omega
    · rename_i h
      rw [decide_eq_true_iff] at h
      omega
  rw [hsigned]

/-! ### Floating-point numbers -/

/-- Digits in front of which no zero stands. -/
structure Leading (ds : Text) : Prop where
  /-- There are digits. -/
  ne_nil : ds ≠ []
  /-- They are digits. -/
  isDigit : ∀ c ∈ ds, c.isDigit = true
  /-- The first of them is not zero. -/
  head_ne : ds.head? ≠ some '0'

theorem leading_toDigits {n : Nat} (hn : 0 < n) : Leading (Nat.toDigits 10 n) := by
  obtain ⟨c, t, hct, hc, -⟩ := Text.head?_toDigits hn
  refine ⟨Nat.toDigits_ne_nil, fun _ => Text.isDigit_of_mem_toDigits, ?_⟩
  rw [hct]
  exact fun h => hc (Option.some.inj h)

/-- Whether a numeral has a point or an exponent. -/
def Figures.Real (f : Figures) : Prop := (f.fraction.isEmpty && f.power?.isNone) = false

section
variable {ds : Text}

/-- Digits, zeros, a point and a zero. -/
theorem Leading.figures_whole (h : Leading ds) (k : Nat) : ∃ f : Figures,
    f.text = ds ++ List.replicate k '0' ++ ['.', '0'] ∧
      f.value = Text.digitsToNat ds * 10 ^ (k : Int) ∧ f.Real := by
  refine ⟨⟨ds ++ List.replicate k '0', ['0'], none, by simp [h.ne_nil], ?_, ?_, by decide, by simp⟩,
    ?_, ?_, rfl⟩
  · intro c hc
    rcases List.mem_append.1 hc with hc | hc
    · exact h.isDigit c hc
    · rw [List.eq_of_mem_replicate hc]
      rfl
  · intro hzero
    rw [List.head?_append_of_ne_nil _ h.ne_nil] at hzero
    exact absurd hzero h.head_ne
  · simp [Figures.text, Figures.fractionText, Figures.exponentText]
  · unfold Figures.value
    rw [Text.digitsToNat_append, Text.digitsToNat_append, Text.digitsToNat_zeros, List.length_replicate]
    simp [Figures.power?, Text.digitsToNat, mul_assoc]

/-- A zero, a point, zeros and digits. -/
theorem Leading.figures_fraction (h : Leading ds) (k : Nat) : ∃ f : Figures,
    f.text = '0' :: '.' :: (List.replicate k '0' ++ ds) ∧
      f.value = Text.digitsToNat ds * 10 ^ (-(k + ds.length : Int)) ∧ f.Real := by
  refine ⟨⟨['0'], List.replicate k '0' ++ ds, none, by simp, by decide, by simp, ?_, by simp⟩, ?_, ?_, ?_⟩
  · intro c hc
    rcases List.mem_append.1 hc with hc | hc
    · rw [List.eq_of_mem_replicate hc]
      rfl
    · exact h.isDigit c hc
  · simp [Figures.text, Figures.fractionText, Figures.exponentText, h.ne_nil]
  · unfold Figures.value
    rw [Text.digitsToNat_append, Text.digitsToNat_append, Text.digitsToNat_zeros]
    simp [Figures.power?, Text.digitsToNat]
  · simp [Figures.Real, h.ne_nil]

/-- Digits with a point between them. -/
theorem Leading.figures_between (h : Leading ds) {n : Nat} (hpos : 0 < n) (hlt : n < ds.length) : ∃ f : Figures,
    f.text = ds.take n ++ '.' :: ds.drop n ∧
      f.value = Text.digitsToNat ds * 10 ^ ((n : Int) - ds.length) ∧ f.Real := by
  have htake : ds.take n ≠ [] := by simp [h.ne_nil, hpos.ne']
  have hdrop : ds.drop n ≠ [] := by simpa using hlt
  refine ⟨⟨ds.take n, ds.drop n, none, htake, fun c hc => h.isDigit c (List.mem_of_mem_take hc), ?_,
    fun c hc => h.isDigit c (List.mem_of_mem_drop hc), by simp⟩, ?_, ?_, ?_⟩
  · intro hzero
    rw [List.head?_take, if_neg hpos.ne'] at hzero
    exact absurd hzero h.head_ne
  · simp [Figures.text, Figures.fractionText, Figures.exponentText, hdrop]
  · unfold Figures.value
    rw [List.take_append_drop]
    simp [Figures.power?, Nat.cast_sub hlt.le]
  · simp [Figures.Real, hdrop]

/-- A digit, a point with the other digits if there are any, and an exponent. -/
theorem Leading.figures_exponent (h : Leading ds) (negative : Bool) {es : Text} (hne : es ≠ [])
    (hes : ∀ c ∈ es, c.isDigit = true) : ∃ f : Figures,
    f.text = ds.take 1 ++ (if (ds.drop 1).isEmpty then [] else '.' :: ds.drop 1) ++
        'e' :: (if negative then '-' else '+') :: es ∧
      f.value = Text.digitsToNat ds *
        10 ^ ((if negative then -(Text.digitsToNat es : Int) else Text.digitsToNat es) + 1 - ds.length) ∧ f.Real := by
  have htake : ds.take 1 ≠ [] := by simp [h.ne_nil]
  have hlength : 1 ≤ ds.length := List.length_pos_of_ne_nil h.ne_nil
  refine ⟨⟨ds.take 1, ds.drop 1, some (negative, es), htake, fun c hc => h.isDigit c (List.mem_of_mem_take hc), ?_,
    fun c hc => h.isDigit c (List.mem_of_mem_drop hc), ?_⟩, ?_, ?_, ?_⟩
  · intro hzero
    rw [List.head?_take, if_neg (by decide)] at hzero
    exact absurd hzero h.head_ne
  · rintro _ _ ⟨⟩
    exact ⟨hne, hes⟩
  · simp [Figures.text, Figures.fractionText, Figures.exponentText]
  · unfold Figures.value
    rw [List.take_append_drop]
    simp only [Figures.power?, Option.map_some, Option.getD_some, List.length_drop]
    rw [Nat.cast_sub hlength]
    congr 2
    omega
  · simp [Figures.Real, Figures.power?]

end

theorem toList_padLeft (width n : Nat) : ∃ k, (DecimalStyle.padLeft width (toString n)).toList =
    List.replicate k '0' ++ Nat.toDigits 10 n := by
  refine ⟨width - (toString n).length, ?_⟩
  unfold DecimalStyle.padLeft
  rw [String.toList_append, String.toList_ofList]
  exact congrArg _ Nat.toList_repr

/-- A decimal is written with figures that have its value, and with a point or an exponent. -/
theorem exists_figures (style : DecimalStyle) {d : Decimal} (hd : 0 < d.digits) :
    ∃ f : Figures, f.text = (style.writeDecimal d).toList ∧ f.value = d.value ∧ f.Real := by
  have h := leading_toDigits hd
  have hvalue := Text.digitsToNat_toDigits d.digits
  have hrepr : (toString d.digits).toList = Nat.toDigits 10 d.digits := Nat.toList_repr
  have hlength : (toString d.digits).length = (Nat.toDigits 10 d.digits).length := by
    rw [← String.length_toList, hrepr]
  have hpos := List.length_pos_of_ne_nil h.ne_nil
  unfold DecimalStyle.writeDecimal Decimal.value
  simp only [hrepr, hlength]
  generalize Nat.toDigits 10 d.digits = ds at *
  split
  · split
    · rename_i hexp
      obtain ⟨f, htext, hf, hreal⟩ := h.figures_whole d.exponent.toNat
      refine ⟨f, ?_, ?_, hreal⟩
      · rw [htext, String.toList_append, String.toList_append, hrepr, String.toList_ofList]
        rfl
      · rw [hf, hvalue, Int.toNat_of_nonneg hexp]
    · split
      · rename_i hexp hfirst
        obtain ⟨f, htext, hf, hreal⟩ := h.figures_fraction (-(d.exponent + ds.length - 1) - 1).toNat
        refine ⟨f, ?_, ?_, hreal⟩
        · simp only [htext, String.toList_append, hrepr, String.toList_ofList]
          rfl
        · rw [hf, hvalue]
          congr 2
          omega
      · rename_i hexp hfirst
        obtain ⟨f, htext, hf, hreal⟩ := h.figures_between (n := (d.exponent + ds.length - 1 + 1).toNat) (by omega)
          (by omega)
        refine ⟨f, ?_, ?_, hreal⟩
        · simp [htext]
        · rw [hf, hvalue]
          congr 2
          omega
  · generalize hfirst : d.exponent + ds.length - 1 = first
    obtain ⟨k, hpad⟩ := toList_padLeft style.exponentWidth first.natAbs
    have hdigits : ∀ c ∈ List.replicate k '0' ++ Nat.toDigits 10 first.natAbs, c.isDigit = true := by
      intro c hc
      rcases List.mem_append.1 hc with hc | hc
      · rw [List.eq_of_mem_replicate hc]
        rfl
      · exact Text.isDigit_of_mem_toDigits hc
    have hes : Text.digitsToNat (List.replicate k '0' ++ Nat.toDigits 10 first.natAbs) = first.natAbs := by
      rw [Text.digitsToNat_append, Text.digitsToNat_zeros, Text.digitsToNat_toDigits, Nat.zero_mul, Nat.zero_add]
    have hsign : (if first < 0 then "-" else "+").toList = [if decide (first < 0) = true then '-' else '+'] := by
      by_cases hneg : first < 0 <;> simp [hneg]
    have hfraction : (if (ds.drop 1).isEmpty then "" else "." ++ String.ofList (ds.drop 1)).toList =
        if (ds.drop 1).isEmpty then [] else '.' :: ds.drop 1 := by
      split <;> simp
    obtain ⟨f, htext, hf, hreal⟩ := h.figures_exponent (decide (first < 0)) (by simp [Nat.toDigits_ne_nil]) hdigits
    refine ⟨f, ?_, ?_, hreal⟩
    · simp only [htext, String.toList_append, hpad, hsign, hfraction, String.toList_ofList, List.append_assoc]
      rfl
    · have hpower : (if decide (first < 0) = true then -(first.natAbs : Int) else first.natAbs) + 1 - ds.length =
          d.exponent := by
        by_cases hneg : first < 0
        · rw [if_pos (decide_eq_true hneg)]
          omega
        · rw [if_neg (by simpa using hneg)]
          omega
      rw [hes, hpower] at hf
      rw [hf, hvalue]

/-- A number that is written as it is read: an integer with not too many digits, or a floating-point number in normal
form. -/
def Writable : Number → Prop
  | .int n => n.natAbs < 10 ^ Number.maxDigits
  | .real x => x.IsNormal

theorem toList_sign (negative : Bool) : (if negative then "-" else "").toList = signText negative := by
  cases negative <;> simp [signText]

theorem toList_writeDecimal_zero : (numberStyle.writeDecimal ⟨0, 0⟩).toList = ['0', '.', '0'] := by decide

/-- A finite number is written with figures that are read as that number. -/
theorem exists_figures_shortest (negative : Bool) {m : Nat} {e : Int} (hm : Binary64.Normal m e) :
    ∃ f : Figures, f.text = (numberStyle.writeDecimal (Decimal.shortest m e)).toList ∧ f.Real ∧
      Binary64.ofDecimal negative (Text.digitsToNat (f.whole ++ f.fraction)) (f.power?.getD 0 - f.fraction.length) =
        .finite negative m e := by
  rcases Nat.eq_zero_or_pos m with rfl | hpos
  · have he : e = -1074 := hm.leading.resolve_left (by decide)
    refine ⟨⟨['0'], ['0'], none, by decide, by decide, by decide, by decide, by simp⟩, ?_, rfl, ?_⟩
    · rw [show Decimal.shortest 0 e = ⟨0, 0⟩ from rfl, toList_writeDecimal_zero]
      rfl
    · rw [he]
      exact Binary64.ofDecimal_zero negative _
  · obtain ⟨f, htext, hf, hreal⟩ := exists_figures numberStyle (Decimal.digits_shortest_pos hm hpos)
    exact ⟨f, htext, hreal, Decimal.ofDecimal_of_value_eq hm hpos hf⟩

/-- **A floating-point number is read back.** -/
theorem readScalarValue_real {x : Binary64} (hx : x.IsNormal) {after : Text} (ha : Stops after) :
    readScalarValue ((numberStyle.write x).toList ++ after) = .ok (number (.real x), after) := by
  cases x with
  | nan => exact readScalarValue_nan after
  | infinity negative =>
    have h := readScalarValue_infinity negative after
    cases negative <;> exact h
  | finite negative m e =>
    obtain ⟨f, htext, hreal, hread⟩ := exists_figures_shortest negative hx
    unfold DecimalStyle.write
    rw [String.toList_append, toList_sign, ← htext, readScalarValue_text, f.readNumber_text ha,
      if_neg (by rw [hreal]; decide), hread]

/-- **A number is read back.** -/
theorem readScalarValue_number {n : Number} (hn : Writable n) {after : Text} (ha : Stops after) :
    readScalarValue (renderNumber n ++ after) = .ok (number n, after) := by
  cases n with
  | int n => exact readScalarValue_int hn ha
  | real x => exact readScalarValue_real hn ha

/-- What is read as a number can be written. -/
theorem writable_of_readNumber {opening : Text} {negative : Bool} {t : Text} {v : Json} {r : Text}
    (h : readNumber opening negative t = .ok (v, r)) : ∃ n, v = number n ∧ Writable n := by
  unfold readNumber at h
  extract_lets +onlyGivenNames whole at h
  have hwhole : ∀ c ∈ whole, c.isDigit = true := by
    intro c hc
    simp only [whole] at hc
    split at hc
    · rw [List.mem_singleton.1 hc]
      rfl
    · exact List.all_eq_true.1 List.all_takeWhile c hc
  clear_value whole
  split at h
  · cases h
  · dsimp only at h
    split at h
    · split at h
      · cases h
      · rename_i hlength
        obtain ⟨rfl, -⟩ := Prod.mk.inj (Except.ok.inj h)
        refine ⟨_, rfl, ?_⟩
        have hvalue : Text.digitsToNat whole < 10 ^ Number.maxDigits :=
          (Text.digitsToNat_lt hwhole).trans_le (Nat.pow_le_pow_right (by decide) (not_lt.1 hlength))
        show Int.natAbs _ < _
        split
        · rwa [Int.natAbs_neg, Int.natAbs_natCast]
        · rwa [Int.natAbs_natCast]
    · obtain ⟨rfl, -⟩ := Prod.mk.inj (Except.ok.inj h)
      exact ⟨_, rfl, Binary64.ofDecimal_isNormal ..⟩

end Json

end LayeredFix
