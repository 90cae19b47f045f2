import LayeredFix.Proofs.Entity.Collapse
import LayeredFix.Proofs.Entity.Scan

/-!
# The pass over entities is a decoder

The pass collapses escaped ampersands, applies the rules of the table one after the other, and resolves what
escaped ampersands are left. `decode` is a decoder that does all of it in one scan from left to right, and
`transform_eq_decode` says that the two agree on every text.

The decoder sees through a rewriting that only brings escapes in behind ampersands or takes them out
(`Transparent.decode_eq`), since it skips them anyway. So collapsing changes nothing about what is decoded
(`decode_collapse`); and on a text with nothing left to collapse the rules, taken together, are the decoder
(`scan_eq_decode`).
-/

namespace LayeredFix.Pass.Entity

/-! ### The decoder -/

/-- The text without the longest run of escapes it begins with. -/
def skipEscapes : Text → Text
  | 'a' :: 'm' :: 'p' :: ';' :: t => skipEscapes t
  | '#' :: '3' :: '8' :: ';' :: t => skipEscapes t
  | '#' :: 'x' :: '2' :: '6' :: ';' :: t => skipEscapes t
  | t => t

theorem length_skipEscapes_le (t : Text) : (skipEscapes t).length ≤ t.length := by
  fun_induction skipEscapes t with
  | case1 t ih | case2 t ih | case3 t ih =>
    simp only [List.length_cons]
    omega
  | case4 t => exact Nat.le_refl _

/-- The text with its entities decoded, in one scan. At an ampersand the escapes behind it are skipped. If what
comes next completes a spelling of the table, its meaning is written and the scan goes on after the entity;
otherwise a single ampersand is written and the scan goes on after the escapes. -/
def decode : Text → Text
  | [] => []
  | c :: t =>
    if c = '&' then
      match firstOf plainRules ('&' :: skipEscapes t) with
      | some (w, m) => m ++ decode ((skipEscapes t).drop (w.length - 1))
      | none => '&' :: decode (skipEscapes t)
    else c :: decode t
termination_by t => t.length
decreasing_by
  · rw [List.length_drop, List.length_cons]
    have := length_skipEscapes_le t
    omega
  · exact Nat.lt_succ_of_le (length_skipEscapes_le t)
  · exact Nat.lt_succ_self _

theorem decode_nil : decode [] = [] := by rw [decode]

theorem decode_cons {c : Char} (hc : c ≠ '&') (t : Text) : decode (c :: t) = c :: decode t := by
  rw [decode, if_neg hc]

theorem decode_of_none {t : Text} (h : firstOf plainRules ('&' :: skipEscapes t) = none) :
    decode ('&' :: t) = '&' :: decode (skipEscapes t) := by
  rw [decode, if_pos rfl, h]

theorem decode_of_some {t body rest m : Text} (hs : skipEscapes t = body ++ rest)
    (h : firstOf plainRules ('&' :: (body ++ rest)) = some ('&' :: body, m)) :
    decode ('&' :: t) = m ++ decode rest := by
  rw [decode, if_pos rfl, hs, h]
  simp

theorem decode_append {u : Text} (hu : '&' ∉ u) (t : Text) : decode (u ++ t) = u ++ decode t := by
  induction u with
  | nil => rfl
  | cons c u ih =>
    obtain ⟨hc, hu⟩ := List.ne_and_not_mem_of_not_mem_cons hu
    rw [List.cons_append, decode_cons (Ne.symm hc), ih hu, List.cons_append]

/-! ### Escapes -/

theorem skipEscapes_append {e : Text} (he : e ∈ escapes) (t : Text) : skipEscapes (e ++ t) = skipEscapes t := by
  simp only [escapes, List.mem_cons, List.not_mem_nil, or_false] at he
  rcases he with rfl | rfl | rfl <;> rfl

/-- A text begins with an escape, or nothing in it is skipped. -/
theorem skipEscapes_cases (t : Text) :
    (∃ e ∈ escapes, ∃ rest, t = e ++ rest) ∨
      ((∀ e ∈ escapes, ∀ rest, t ≠ e ++ rest) ∧ skipEscapes t = t) := by
  by_cases h : ∃ e ∈ escapes, ∃ rest, t = e ++ rest
  · exact Or.inl h
  · refine Or.inr ⟨fun e he rest ht => h ⟨e, he, rest, ht⟩, ?_⟩
    unfold skipEscapes
    split
    · rename_i t
      exact absurd ⟨"amp;".toList, by decide, t, rfl⟩ h
    · rename_i t
      exact absurd ⟨"#38;".toList, by decide, t, rfl⟩ h
    · rename_i t
      exact absurd ⟨"#x26;".toList, by decide, t, rfl⟩ h
    · rfl

/-! ### The table -/

theorem plainRules_proper : ∀ r ∈ plainRules, r.Proper := by decide +kernel

theorem plainRules_opaque : ∀ r ∈ plainRules, r.Opaque := by decide

theorem spellings_beginTail : ∀ r ∈ plainRules, ∀ w ∈ r.spellings, beginsTail w.tail = true := by decide +kernel

theorem spellings_ne_escape :
    ∀ r ∈ plainRules, ∀ w ∈ r.spellings, ∀ e ∈ escapes, ¬ w <+: '&' :: e ∧ ¬ '&' :: e <+: w := by decide +kernel

/-- What the table finds behind an ampersand is the rest of an entity. -/
theorem exists_of_firstOf_plain {t w m : Text} (h : firstOf plainRules ('&' :: t) = some (w, m)) :
    beginsTail t = true ∧ ∃ body rest, w = '&' :: body ∧ (∀ c ∈ body, isBody c = true) ∧ t = body ++ rest := by
  obtain ⟨r, hr, hs, -⟩ := exists_of_firstOf h
  obtain ⟨body, rest, rfl, hbody, ht⟩ := (plainRules_proper r hr).exists_body hs
  obtain rfl : t = body ++ rest := (List.cons.inj ht).2
  have htail := spellings_beginTail r hr _ (Rule.spellingAt_eq_some hs).1
  exact ⟨beginsTail_append htail rest, body, rest, rfl, hbody, rfl⟩

/-- The table finds nothing where an escape stands. -/
theorem firstOf_plain_escape {e : Text} (he : e ∈ escapes) (t : Text) :
    firstOf plainRules ('&' :: (e ++ t)) = none := by
  by_contra h
  obtain ⟨⟨w, m⟩, h⟩ := Option.ne_none_iff_exists'.1 h
  obtain ⟨r, hr, hs, -⟩ := exists_of_firstOf h
  obtain ⟨hw, hprefix⟩ := Rule.spellingAt_eq_some hs
  have hescape : '&' :: e <+: '&' :: (e ++ t) := List.prefix_append ('&' :: e) t
  obtain ⟨hne, hne'⟩ := spellings_ne_escape r hr w hw e he
  exact (List.prefix_or_prefix_of_prefix hprefix hescape).elim hne hne'

/-! ### Texts that are decoded alike -/

/-- A way of rewriting texts that the decoder sees through. Body characters are copied and none comes up in front of
them, so an entity stays the entity it is. Behind an ampersand at most escapes come or go, and what is written for any
other character is decoded to this character. -/
structure Transparent (f : Text → Text) : Prop where
  nil : f [] = []
  body : ∀ {u : Text}, (∀ c ∈ u, isBody c = true) → ∀ t, f (u ++ t) = u ++ f t
  begins : ∀ t, (f t).takeWhile isBody = t.takeWhile isBody
  ampersand : ∀ t, ∃ t', skipEscapes t' = skipEscapes t ∧ f ('&' :: t) = '&' :: f t'
  other : ∀ {c : Char}, c ≠ '&' → ∀ t, decode (f (c :: t)) = c :: decode (f t)

namespace Transparent

variable {f : Text → Text}

/-- Rewriting and skipping escapes can be done in either order. -/
theorem skipEscapes_eq (hf : Transparent f) (t : Text) : skipEscapes (f t) = f (skipEscapes t) := by
  induction hn : t.length using Nat.strong_induction_on generalizing t with
  | _ n ih =>
    subst hn
    rcases skipEscapes_cases t with ⟨e, he, rest, rfl⟩ | ⟨hnot, hskip⟩
    · have hlt : rest.length < (e ++ rest).length := by
        have hpos := escapes_length_pos e he
        rw [List.length_append]
        omega
      rw [hf.body (escapes_body he), skipEscapes_append he, skipEscapes_append he]
      exact ih _ hlt rest rfl
    · rw [hskip]
      rcases skipEscapes_cases (f t) with ⟨e, he, rest, ht⟩ | ⟨-, h⟩
      · -- The characters of an escape in front were there before.
        have hbody := escapes_body he
        have hprefix : e.isPrefixOf t = true := by
          rw [← isPrefixOf_takeWhile hbody, ← hf.begins, isPrefixOf_takeWhile hbody, ht]
          exact List.isPrefixOf_iff_prefix.2 (List.prefix_append e rest)
        obtain ⟨rest', ht'⟩ := List.isPrefixOf_iff_prefix.1 hprefix
        exact absurd ht'.symm (hnot e he rest')
      · exact h

theorem firstOf_eq (hf : Transparent f) (t : Text) : firstOf plainRules ('&' :: f t) = firstOf plainRules ('&' :: t) :=
  firstOf_congr plainRules_proper (hf.begins t)

/-- **What the decoder sees through is decoded alike.** -/
theorem decode_eq (hf : Transparent f) (t : Text) : decode (f t) = decode t := by
  induction t using decode.induct with
  | case1 => rw [hf.nil]
  | case2 t w m h ih =>
    obtain ⟨-, body, rest, rfl, hbody, hs⟩ := exists_of_firstOf_plain h
    obtain ⟨t', hskip, ht'⟩ := hf.ampersand t
    have hs' : skipEscapes (f t') = body ++ f rest := by rw [hf.skipEscapes_eq, hskip, hs, hf.body hbody]
    rw [hs] at h ih
    have h' : firstOf plainRules ('&' :: (body ++ f rest)) = some ('&' :: body, m) := by
      rw [← hf.body hbody, hf.firstOf_eq, h]
    rw [ht', decode_of_some hs' h', decode_of_some hs h]
    simpa using ih
  | case3 t h ih =>
    obtain ⟨t', hskip, ht'⟩ := hf.ampersand t
    have hs' : skipEscapes (f t') = f (skipEscapes t) := by rw [hf.skipEscapes_eq, hskip]
    rw [ht', decode_of_none (by rw [hs', hf.firstOf_eq, h]), hs', ih, decode_of_none h]
  | case4 c t hc ih => rw [hf.other hc, ih, decode_cons hc]

end Transparent

/-- A round of collapsing keeps an ampersand, and from what is behind it takes at most escapes. -/
theorem collapseOnce_ampersand (t : Text) :
    ∃ t', skipEscapes t' = skipEscapes t ∧ collapseOnce ('&' :: t) = '&' :: collapseOnce t' := by
  rcases hx : collapser ('&' :: t) with _ | ⟨w, m⟩
  · exact ⟨t, rfl, by rw [collapseOnce_eq, collapseOnce_eq, rewrite_cons_of_none hx]⟩
  · obtain ⟨rfl, e, he, rfl, rest, rfl, -⟩ := exists_of_collapser hx
    refine ⟨rest, (skipEscapes_append he rest).symm, ?_⟩
    rw [collapseOnce_eq, collapseOnce_eq, rewrite_of_some hx]
    rfl

/-- **A round of collapsing changes nothing about what is decoded.** -/
theorem transparent_collapseOnce : Transparent collapseOnce where
  nil := by rw [collapseOnce_eq, rewrite_nil]
  body hu t := collapseOnce_append (ampersand_notMem_body hu) t
  begins := collapseOnce_takeWhile (by decide)
  ampersand := collapseOnce_ampersand
  other hc t := by rw [collapseOnce_eq, rewrite_cons collapser_proper hc, ← collapseOnce_eq, decode_cons hc]

/-- Collapsing changes nothing about what is decoded. -/
theorem decode_collapse (t : Text) : decode (collapse t) = decode t := by
  fun_induction collapse t with
  | case1 t next h ih => rw [ih, transparent_collapseOnce.decode_eq]
  | case2 t next h => rfl

/-! ### The rules together -/

/-- All rules, in the order in which they are applied after the collapse. -/
def allRules : List Rule := plainRules ++ [ampersand]

theorem allRules_proper : ∀ r ∈ allRules, r.Proper := by
  intro r hr
  rcases List.mem_append.1 hr with hr | hr
  · exact plainRules_proper r hr
  · exact List.mem_singleton.1 hr ▸ ampersand_proper

/-- The ampersand rule has its say only where the table finds nothing. -/
theorem firstOf_allRules (t : Text) : firstOf allRules t = (firstOf plainRules t).or (firstOf [ampersand] t) :=
  firstOf_append plainRules [ampersand] t

/-- Behind an ampersand at which nothing is to be collapsed there is at most one escape. -/
theorem Settled.escape {e rest : Text} (h : Settled ('&' :: (e ++ rest))) (he : e ∈ escapes) :
    beginsTail rest = false ∧ skipEscapes (e ++ rest) = rest := by
  have hrest : beginsTail rest = false := h [] e rest he rfl
  refine ⟨hrest, ?_⟩
  rcases skipEscapes_cases rest with ⟨e', he', rest', rfl⟩ | ⟨-, hskip⟩
  · rw [beginsTail_append (escapes_beginTail e' he')] at hrest
    cases hrest
  · rw [skipEscapes_append he, hskip]

/-- **On a text with nothing left to collapse the rules together are the decoder.** -/
theorem scan_eq_decode {t : Text} (h : Settled t) : scan allRules t = decode t := by
  induction t using decode.induct with
  | case1 => rw [scan, rewrite_nil, decode_nil]
  | case2 t w m hx ih =>
    rcases skipEscapes_cases t with ⟨e, he, rest, rfl⟩ | ⟨-, hskip⟩
    · obtain ⟨hrest, hskip⟩ := h.escape he
      rw [hskip] at hx
      rw [(exists_of_firstOf_plain hx).1] at hrest
      cases hrest
    · rw [hskip] at hx ih
      obtain ⟨-, body, rest, rfl, -, rfl⟩ := exists_of_firstOf_plain hx
      have hall : firstOf allRules ('&' :: (body ++ rest)) = some ('&' :: body, m) := by
        rw [firstOf_allRules, hx, Option.some_or]
      have hscan : scan allRules ('&' :: (body ++ rest)) = m ++ scan allRules rest := rewrite_of_some hall
      have hrest : Settled rest := (Settled.of_append (u := '&' :: body) h)
      rw [List.length_cons, Nat.add_sub_cancel, List.drop_left] at ih
      rw [hscan, decode_of_some hskip hx, ih hrest]
  | case3 t hx ih =>
    rcases skipEscapes_cases t with ⟨e, he, rest, rfl⟩ | ⟨hnot, hskip⟩
    · obtain ⟨-, hskip⟩ := h.escape he
      have hall : firstOf allRules ('&' :: (e ++ rest)) = some ('&' :: e, ['&']) := by
        rw [firstOf_allRules, firstOf_plain_escape he, Option.none_or,
          firstOf_cons_of_some (spellingAt_ampersand he rest)]
        rfl
      have hscan : scan allRules ('&' :: (e ++ rest)) = '&' :: scan allRules rest := rewrite_of_some hall
      have hrest : Settled rest := (Settled.of_append (u := '&' :: e) h)
      rw [decode_of_none hx]
      rw [hskip] at ih ⊢
      rw [hscan, ih hrest]
    · have hnone : ampersand.spellingAt ('&' :: t) = none := by
        by_contra hs
        obtain ⟨w, hs⟩ := Option.ne_none_iff_exists'.1 hs
        obtain ⟨e, he, -, rest, ht⟩ := exists_of_spellingAt_ampersand hs
        exact hnot e he rest ht
      rw [hskip] at ih
      have hall : firstOf allRules ('&' :: t) = none := by
        rw [hskip] at hx
        rw [firstOf_allRules, hx, Option.none_or, firstOf_cons_of_none hnone]
        rfl
      have hscan : scan allRules ('&' :: t) = '&' :: scan allRules t := rewrite_cons_of_none hall
      have ht : Settled t := (Settled.of_append (u := ['&']) h)
      rw [hscan, decode_of_none hx, hskip, ih ht]
  | case4 c t hc ih =>
    have hscan : scan allRules (c :: t) = c :: scan allRules t :=
      rewrite_cons (firstOf_proper allRules_proper) hc t
    have ht : Settled t := (Settled.of_append (u := [c]) h)
    rw [hscan, decode_cons hc, ih ht]

/-- The rules, applied one after the other to the collapsed text, are the decoder. -/
theorem apply_foldl_collapse (t : Text) :
    ampersand.apply (plainRules.foldl (fun t r => r.apply t) (collapse t)) = decode t := by
  rw [foldl_apply_eq_scan plainRules_proper ampersand_proper plainRules_opaque]
  show scan allRules (collapse t) = decode t
  rw [scan_eq_decode (collapse_settled t), decode_collapse]

theorem ampersand_notMem {t : Text} (h : ¬ Text.occursIn ['&'] t = true) : '&' ∉ t := by
  intro hmem
  obtain ⟨u, v, rfl⟩ := List.append_of_mem hmem
  exact h ((Text.occursIn_iff _ _).2 ⟨u, v, by simp⟩)

theorem transform_of_occursIn {t : Text} (h : Text.occursIn ['&'] t = true) : transform t = decode t := by
  rw [transform, if_pos h, apply_foldl_collapse]

/-- **The pass over entities is a decoder that reads the text once**, from left to right: at each ampersand it
skips the escapes behind it, writes the meaning of the entity that comes next, or else a single ampersand, and
copies every other character. -/
theorem transform_eq_decode (t : Text) : transform t = decode t := by
  unfold transform
  split
  · exact apply_foldl_collapse t
  · rename_i h
    rw [← List.append_nil t, decode_append (ampersand_notMem h), decode_nil]

example : transform "&amp;#38;lt;b&amp;&amp;amp;c&copy".toList = "<b&&c&copy".toList := by decide +kernel

end LayeredFix.Pass.Entity
