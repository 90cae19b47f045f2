import LayeredFix.Proofs.Hardening.Braces
import Mathlib.Order.Bounds.Basic

/-!
# The brace that closes a brace

The search for a closing brace goes through the text with the number of braces that are open. It finds nothing just if no
front part of what it reads closes more braces than are open (`closingBraceFrom_eq_none_iff`). Otherwise it stops where
for the first time as many braces are closed as were opened, counted from the brace at which it began.
-/

namespace LayeredFix.Pass.Hardening

variable {t a r : Text} {opening i : Nat}

/-! ### Stretches -/

/-- The stretch of a text from one index to another, both included. -/
def stretch (t : Text) (first last : Nat) : Text := (t.take (last + 1)).drop first

/-- From one index to a later one as many braces are opened as are closed. -/
def EvensOut (t : Text) (first last : Nat) : Prop :=
  first < last ∧ last < t.length ∧ (stretch t first last).count '\x7b' = (stretch t first last).count '\x7d'

theorem stretch_open (a r : Text) (k : Nat) : stretch (a ++ '\x7b' :: r) a.length (a.length + k) = '\x7b' :: r.take k := by
  rw [stretch, Nat.add_assoc, List.take_length_add_append, List.drop_left, List.take_succ_cons]

/-- From an opening brace on it evens out where one brace more is closed behind it than is opened. -/
theorem evensOut_iff : EvensOut (a ++ '\x7b' :: r) a.length i ↔ ∃ p, p <+: r ∧ rise p = -1 ∧ i = a.length + p.length := by
  constructor
  · rintro ⟨hlater, hlast, hcount⟩
    obtain ⟨k, rfl⟩ := Nat.exists_eq_add_of_le hlater.le
    have hk : k ≤ r.length := by
      rw [List.length_append, List.length_cons] at hlast
      omega
    have hrise := rise_open (r.take k)
    rw [stretch_open] at hcount
    rw [rise, hcount, Int.sub_self] at hrise
    exact ⟨r.take k, List.take_prefix k r, by omega, by rw [List.length_take_of_le hk]⟩
  · rintro ⟨p, ⟨z, rfl⟩, hrise, rfl⟩
    have hpos : 0 < p.length := List.length_pos_iff.2 fun hnil => by
      rw [hnil, rise_nil] at hrise
      omega
    have hopen := rise_open p
    rw [rise] at hopen
    have hlast : a.length + p.length < (a ++ '\x7b' :: (p ++ z)).length := by
      rw [List.length_append, List.length_cons, List.length_append]
      omega
    refine ⟨by omega, hlast, ?_⟩
    rw [stretch_open, List.take_left]
    omega

/-! ### The search -/

/-- With `depth` braces open besides the one that is to be closed, the search finds nothing just if no front part of the text
closes more than these. -/
theorem closingBraceFrom_eq_none_iff {depth index : Nat} :
    closingBraceFrom (depth + 1) index t = none ↔ NeverBelow depth t := by
  induction t generalizing depth index with
  | nil => exact iff_of_true rfl (neverBelow_nil (Int.natCast_nonneg depth))
  | cons c t ih =>
    have hdepth : (0 : Int) ≤ depth := Int.natCast_nonneg depth
    rw [closingBraceFrom]
    split
    · rename_i hopen
      rw [beq_iff_eq.1 hopen, neverBelow_cons hdepth rise_open]
      exact @ih (depth + 1) (index + 1)
    · rename_i hopen
      rw [beq_iff_eq] at hopen
      split
      · rename_i hclose
        rw [beq_iff_eq.1 hclose, neverBelow_cons hdepth rise_close]
        cases depth with
        | zero => exact iff_of_false (by simp) (not_neverBelow (by decide) t)
        | succ depth =>
          have hpred : ((depth + 1 : Nat) : Int) + -1 = depth := by omega
          rw [if_neg (by simp only [beq_iff_eq]; omega), Int.add_sub_cancel, hpred]
          exact ih
      · rename_i hclose
        rw [beq_iff_eq] at hclose
        rw [neverBelow_cons hdepth (rise_cons hopen hclose), Int.add_zero]
        exact ih

theorem closingBrace_eq_none_iff : closingBrace (a ++ '\x7b' :: r) a.length = none ↔ NeverBelow 0 r := by
  rw [closingBrace_open]
  exact closingBraceFrom_eq_none_iff

/-- Where nothing is found, it never evens out. -/
theorem not_evensOut_of_none (h : closingBrace (a ++ '\x7b' :: r) a.length = none) :
    ¬ EvensOut (a ++ '\x7b' :: r) a.length i := by
  intro hi
  obtain ⟨p, hp, hrise, -⟩ := evensOut_iff.1 hi
  have hfront := closingBrace_eq_none_iff.1 h p hp
  omega

/-- What is found closes the brace: between the two a text stands that closes all braces that it opens. -/
theorem exists_of_closingBrace (h : closingBrace (a ++ '\x7b' :: r) a.length = some i) :
    ∃ b z, r = b ++ '\x7d' :: z ∧ i = a.length + (b.length + 1) ∧ NeverBelow 0 b ∧ rise b = 0 := by
  obtain ⟨b, z, hr, hlevel, hi⟩ := closingBrace_eq_some_iff.1 h
  obtain ⟨hfront, hrise⟩ := level_eq_some_iff.1 hlevel
  refine ⟨b, z, hr, ?_, hfront, by omega⟩
  rw [hi, List.length_append, List.length_cons]

/-- **What is found is the first index at which it evens out.** -/
theorem isLeast_of_closingBrace (h : closingBrace (a ++ '\x7b' :: r) a.length = some i) :
    IsLeast {i | EvensOut (a ++ '\x7b' :: r) a.length i} i := by
  obtain ⟨b, z, rfl, rfl, hfront, hrise⟩ := exists_of_closingBrace h
  constructor
  · have hclose : rise (b ++ ['\x7d']) = -1 := by
      rw [rise_append, hrise, rise_close, rise_nil]
      rfl
    refine evensOut_iff.2 ⟨b ++ ['\x7d'], ⟨z, List.append_cons b _ z ▸ rfl⟩, hclose, ?_⟩
    rw [List.length_append, List.length_singleton]
  · intro j hj
    obtain ⟨p, hp, hrisep, rfl⟩ := evensOut_iff.1 hj
    have hlonger : b.length < p.length := by
      by_contra hshort
      have hpb : p <+: b := List.prefix_of_prefix_length_le hp (List.prefix_append b _) (by omega)
      have hno := hfront p hpb
      omega
    omega

/-- **Inside of the braces one brace at least is open.** -/
theorem count_lt_of_closingBrace (h : closingBrace (a ++ '\x7b' :: r) a.length = some i) {p : Text}
    (hp : p <+: stretch (a ++ '\x7b' :: r) a.length i) (hnil : p ≠ []) (hall : p ≠ stretch (a ++ '\x7b' :: r) a.length i) :
    p.count '\x7d' < p.count '\x7b' := by
  obtain ⟨b, z, rfl, rfl, hfront, -⟩ := exists_of_closingBrace h
  rw [stretch_open, List.append_cons b, List.take_left' (by simp)] at hp hall
  obtain ⟨c, q, rfl⟩ := List.exists_cons_of_ne_nil hnil
  obtain ⟨rfl, hq⟩ := List.cons_prefix_cons.1 hp
  have hqb : q <+: b := (List.prefix_concat_iff.1 hq).resolve_left fun hfull => hall (congrArg _ hfull)
  have hopen := hfront q hqb
  have hrise := rise_open q
  rw [rise] at hrise
  omega

/-- **The search for a closing brace is right**: from an opening brace on, it finds the first index at which as many braces
are closed as were opened, and nothing if there is none. At this index a brace is closed, and in front of it, from the
opening brace on, more braces are opened than are closed. -/
theorem closingBrace_isLeast (h : t[opening]? = some '\x7b') :
    (∀ i, closingBrace t opening = some i ↔ IsLeast {i | EvensOut t opening i} i) ∧
      (∀ i, closingBrace t opening = some i → t[i]? = some '\x7d' ∧
        ∀ p, p <+: stretch t opening i → p ≠ [] → p ≠ stretch t opening i → p.count '\x7d' < p.count '\x7b') ∧
      (closingBrace t opening = none ↔ ∀ i, ¬ EvensOut t opening i) := by
  obtain ⟨hlt, hget⟩ := List.getElem?_eq_some_iff.1 h
  obtain ⟨a, r, rfl, rfl⟩ : ∃ a r, t = a ++ '\x7b' :: r ∧ opening = a.length := by
    refine ⟨t.take opening, t.drop (opening + 1), ?_, (List.length_take_of_le hlt.le).symm⟩
    rw [← hget, ← List.drop_eq_getElem_cons hlt, List.take_append_drop]
  refine ⟨fun i => ⟨isLeast_of_closingBrace, fun hleast => ?_⟩, fun i hi => ⟨?_, ?_⟩,
    ⟨fun hnone i => not_evensOut_of_none hnone, fun hnever => ?_⟩⟩
  · rcases hfound : closingBrace (a ++ '\x7b' :: r) a.length with _ | j
    · exact absurd hleast.1 (not_evensOut_of_none hfound)
    · rw [(isLeast_of_closingBrace hfound).unique hleast]
  · obtain ⟨b, z, rfl, rfl, -⟩ := exists_of_closingBrace hi
    rw [List.getElem?_append_right (Nat.le_add_right _ _), Nat.add_sub_cancel_left, List.getElem?_cons_succ,
      List.getElem?_append_right (Nat.le_refl _), Nat.sub_self]
    rfl
  · exact fun p hp hnil hall => count_lt_of_closingBrace hi hp hnil hall
  · rcases hfound : closingBrace (a ++ '\x7b' :: r) a.length with _ | j
    · rfl
    · exact absurd (isLeast_of_closingBrace hfound).1 (hnever j)

/-- A text with a brace that is closed too early, nested braces, and a brace that is left open. -/
def mixedBraces : Text := "\x7d\x7ba\x7b\x7d\x7d\x7d\x7b".toList

theorem closingBrace_isLeast_mixedBraces :
    mixedBraces[1]? = some '\x7b' ∧ IsLeast {i | EvensOut mixedBraces 1 i} 5 ∧ mixedBraces[7]? = some '\x7b' ∧
      ∀ i, ¬ EvensOut mixedBraces 7 i := by
  have hnested : mixedBraces[1]? = some '\x7b' := by decide
  have hopen : mixedBraces[7]? = some '\x7b' := by decide
  exact ⟨hnested, ((closingBrace_isLeast hnested).1 5).1 (by decide), hopen, (closingBrace_isLeast hopen).2.2.1 (by decide)⟩

end LayeredFix.Pass.Hardening
