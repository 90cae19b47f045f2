import LayeredFix.Proofs.Text.Utf8
import LayeredFix.Run.CacheKey
import Mathlib

/-!
# The bytes behind a cache key can be read back

The bytes that are digested for a run are its variant, the numbers of its layers and its text, one after the
other with a zero byte between them. The text comes last, so it may hold anything, zero characters included;
the variant must hold none, and the numbers are written with digits, minus signs and commas only. Hence the
bytes determine the variant, the set of numbers and the text (`preimage_inj`). They determine no more: the numbers
are written in ascending order without repetition, which is the same for all lists of the same numbers
(`sortedUnique_eq_iff`).
-/

namespace LayeredFix

/-! ### Numbers in decimal -/

theorem Text.ofInt_injective {m n : Int} (h : Text.ofInt m = Text.ofInt n) : m = n :=
  Int.repr_inj.1 (String.toList_inj.1 h)

/-- A number in decimal is written with digits and the minus sign. -/
theorem Text.mem_ofInt {c : Char} {n : Int} (h : c ∈ Text.ofInt n) : c = '-' ∨ c.isDigit = true := by
  have hdigits (k : Nat) (hk : c ∈ k.repr.toList) : c.isDigit = true := by
    rw [Nat.toList_repr] at hk
    exact Nat.isDigit_of_mem_toDigits (by decide) (by decide) hk
  unfold Text.ofInt at h
  rw [Int.toString_eq_repr, Int.repr_eq_if] at h
  split at h
  · exact Or.inr (hdigits _ h)
  · rw [String.toList_append, List.mem_append] at h
    rcases h with h | h
    · exact Or.inl (by simpa using h)
    · exact Or.inr (hdigits _ h)

theorem Text.ofInt_ne_nil (n : Int) : Text.ofInt n ≠ [] := by
  unfold Text.ofInt
  rw [Int.toString_eq_repr, Int.repr_eq_if]
  split <;> simp

namespace CacheKey

/-! ### Numbers in ascending order -/

theorem mem_insertNumber {m n : Int} {ns : List Int} : m ∈ insertNumber n ns ↔ m = n ∨ m ∈ ns := by
  induction ns with
  | nil => simp [insertNumber]
  | cons k ks ih =>
    unfold insertNumber
    split
    · rw [List.mem_cons, ih, List.mem_cons]
      tauto
    · split
      · rename_i hk
        have hkn : k = n := by simpa using hk
        rw [hkn, List.mem_cons]
        tauto
      · rw [List.mem_cons]

/-- Sorting loses no number and adds none. -/
theorem mem_sortedUnique {m : Int} {ns : List Int} : m ∈ sortedUnique ns ↔ m ∈ ns := by
  induction ns with
  | nil => rfl
  | cons n ns ih =>
    show m ∈ insertNumber n (sortedUnique ns) ↔ m ∈ n :: ns
    rw [mem_insertNumber, ih, List.mem_cons]

theorem pairwise_insertNumber {n : Int} {ns : List Int} (h : ns.Pairwise (· < ·)) :
    (insertNumber n ns).Pairwise (· < ·) := by
  induction ns with
  | nil => exact List.pairwise_singleton ..
  | cons m ms ih =>
    obtain ⟨hm, hms⟩ := List.pairwise_cons.1 h
    unfold insertNumber
    split
    · rename_i hlt
      refine List.pairwise_cons.2 ⟨fun k hk => ?_, ih hms⟩
      rcases mem_insertNumber.1 hk with rfl | hk
      · exact hlt
      · exact hm k hk
    · rename_i hge
      split
      · exact h
      · rename_i hne
        have hnm : n < m := by
          have hne' : m ≠ n := by simpa using hne
          omega
        refine List.pairwise_cons.2 ⟨fun k hk => ?_, h⟩
        rcases List.mem_cons.1 hk with rfl | hk
        · exact hnm
        · exact hnm.trans (hm k hk)

theorem pairwise_sortedUnique (ns : List Int) : (sortedUnique ns).Pairwise (· < ·) := by
  induction ns with
  | nil => exact List.Pairwise.nil
  | cons n ns ih => exact pairwise_insertNumber ih

/-- Sorting forgets the order and the repetitions, and nothing else. -/
theorem sortedUnique_eq_iff {ns ms : List Int} : sortedUnique ns = sortedUnique ms ↔ ∀ n, n ∈ ns ↔ n ∈ ms := by
  constructor
  · intro h n
    rw [← mem_sortedUnique, h, mem_sortedUnique]
  · intro h
    refine (pairwise_sortedUnique ns).eq_of_mem_iff (pairwise_sortedUnique ms) fun n => ?_
    rw [mem_sortedUnique, mem_sortedUnique, h]

/-! ### Reading the numbers back -/

/-- A character of parts joined by a separator is the separator or stands in a part. -/
theorem mem_intercalate {c d : Char} : ∀ {ts : List Text}, c ∈ List.intercalate [d] ts → c = d ∨ ∃ t ∈ ts, c ∈ t
  | [], h => by simp [List.intercalate] at h
  | [t], h => Or.inr ⟨t, List.mem_cons_self .., by simpa [List.intercalate] using h⟩
  | t :: u :: ts, h => by
    have h' : c ∈ t ++ [d] ++ List.intercalate [d] (u :: ts) := by simpa [List.intercalate] using h
    rw [List.mem_append, List.mem_append, List.mem_singleton] at h'
    rcases h' with (h' | h') | h'
    · exact Or.inr ⟨t, List.mem_cons_self .., h'⟩
    · exact Or.inl h'
    · rcases mem_intercalate h' with hd | ⟨v, hv, hc⟩
      · exact Or.inl hd
      · exact Or.inr ⟨v, List.mem_cons_of_mem _ hv, hc⟩

/-- A list of numbers in writing holds no zero character. -/
theorem zero_notMem_layerText (ids : List Int) : '\x00' ∉ layerText ids := by
  intro h
  rcases mem_intercalate h with h | ⟨t, ht, h⟩
  · exact absurd h (by decide)
  · obtain ⟨n, -, rfl⟩ := List.mem_map.1 ht
    rcases Text.mem_ofInt h with h | h <;> exact absurd h (by decide)

/-- The commas cut the list of numbers back into the numbers. -/
theorem splitOn_layerText {ids : List Int} (h : sortedUnique ids ≠ []) :
    List.splitOn ',' (layerText ids) = (sortedUnique ids).map Text.ofInt := by
  refine List.splitOn_intercalate ',' ?_ (by simpa using h)
  intro t ht hc
  obtain ⟨n, -, rfl⟩ := List.mem_map.1 ht
  rcases Text.mem_ofInt hc with hc | hc <;> exact absurd hc (by decide)

theorem layerText_eq_nil {ids : List Int} : layerText ids = [] ↔ sortedUnique ids = [] := by
  unfold layerText
  rcases sortedUnique ids with _ | ⟨n, _ | ⟨m, ns⟩⟩ <;> simp [List.intercalate, Text.ofInt_ne_nil]

/-- A list of numbers in writing determines the numbers. -/
theorem sortedUnique_of_layerText {ids ids' : List Int} (h : layerText ids = layerText ids') :
    sortedUnique ids = sortedUnique ids' := by
  by_cases hn : sortedUnique ids = []
  · rw [hn, eq_comm, ← layerText_eq_nil, ← h, layerText_eq_nil, hn]
  · have hn' : sortedUnique ids' ≠ [] := by
      rwa [Ne, ← layerText_eq_nil, ← h, layerText_eq_nil]
    have hs := congrArg (List.splitOn ',') h
    rw [splitOn_layerText hn, splitOn_layerText hn'] at hs
    exact List.map_injective_iff.2 (fun _ _ => Text.ofInt_injective) hs

/-! ### Reading the three parts back -/

/-- What stands before the first zero and what stands after it can be told apart. -/
theorem append_zero_inj {as bs cs ds : List UInt8} (ha : 0 ∉ as) (hc : 0 ∉ cs)
    (h : as ++ 0 :: bs = cs ++ 0 :: ds) : as = cs ∧ bs = ds := by
  induction as generalizing cs with
  | nil =>
    cases cs with
    | nil => exact ⟨rfl, by simpa using h⟩
    | cons c cs =>
      simp only [List.nil_append, List.cons_append, List.cons.injEq] at h
      exact absurd (h.1 ▸ List.mem_cons_self ..) hc
  | cons a as ih =>
    cases cs with
    | nil =>
      simp only [List.nil_append, List.cons_append, List.cons.injEq] at h
      exact absurd (h.1 ▸ List.mem_cons_self ..) ha
    | cons c cs =>
      simp only [List.cons_append, List.cons.injEq] at h
      obtain ⟨rfl, h⟩ := h
      obtain ⟨rfl, rfl⟩ := ih (fun h0 => ha (List.mem_cons_of_mem _ h0))
        (fun h0 => hc (List.mem_cons_of_mem _ h0)) h
      exact ⟨rfl, rfl⟩

/-- **The bytes behind a key determine what it is a key of**: the variant, the set of numbers, and the
text. -/
theorem preimage_inj {v v' : Text} {ids ids' : List Int} {t t' : Text} (hv : '\x00' ∉ v) (hv' : '\x00' ∉ v')
    (h : preimage v ids t = preimage v' ids' t') : v = v' ∧ (∀ n, n ∈ ids ↔ n ∈ ids') ∧ t = t' := by
  unfold preimage at h
  obtain ⟨hvar, h⟩ := append_zero_inj (Utf8.zero_notMem_encode hv) (Utf8.zero_notMem_encode hv') h
  obtain ⟨hids, htext⟩ := append_zero_inj (Utf8.zero_notMem_encode (zero_notMem_layerText _))
    (Utf8.zero_notMem_encode (zero_notMem_layerText _)) h
  have hset := sortedUnique_of_layerText (Utf8.encode_injective hids)
  exact ⟨Utf8.encode_injective hvar, sortedUnique_eq_iff.1 hset, Utf8.encode_injective htext⟩

/-- **The bytes behind a key are the same just for the same variant, the same set of numbers and the same text.** The
text may hold anything, and the numbers may be given in any order and with repetitions. -/
theorem preimage_eq_iff (v v' : Text) (ids ids' : List Int) (t t' : Text) (hv : '\x00' ∉ v) (hv' : '\x00' ∉ v') :
    preimage v ids t = preimage v' ids' t' ↔ v = v' ∧ (∀ n, n ∈ ids ↔ n ∈ ids') ∧ t = t' := by
  constructor
  · exact preimage_inj hv hv'
  · rintro ⟨rfl, hset, rfl⟩
    unfold preimage layerText
    rw [sortedUnique_eq_iff.2 hset]

/-- Order and repetition do not matter, also in front of a text that goes on as the numbers might. A number that moves
from the list into the text does. -/
theorem preimage_eq_iff_reordered :
    '\x00' ∉ "revert".toList ∧ '\x00' ∉ ([] : Text) ∧
      preimage "revert".toList [2, -1, 2] ['\x00', ',', '1'] = preimage "revert".toList [-1, 2] ['\x00', ',', '1'] ∧
      preimage [] [1] ['2'] ≠ preimage [] [1, 2] [] :=
  have hrevert : '\x00' ∉ "revert".toList := by decide
  have hplain : '\x00' ∉ ([] : Text) := by decide
  ⟨hrevert, hplain, (preimage_eq_iff _ _ _ _ _ _ hrevert hrevert).2 ⟨rfl, fun n => by simp; omega, rfl⟩,
    fun h => absurd ((preimage_eq_iff _ _ _ _ _ _ hplain hplain).1 h).2.2 (by decide)⟩

-- With a zero character in the variant the parts could not be told apart.
example : preimage ['\x00'] [] [] = preimage [] [] ['\x00'] := by decide

end CacheKey

end LayeredFix
