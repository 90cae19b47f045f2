import LayeredFix.Proofs.Entity.Rewriting

/-!
# Many rules in one pass

Rules that are applied one after the other do what a single pass does that looks for the spellings of all of them
at once (`foldl_apply_eq_scan`). They cannot feed each other as long as what a rule writes has no ampersand in it
and begins with a character that no entity contains (`Rule.Opaque`). Only the last rule is free of this.
-/

namespace LayeredFix.Pass.Entity

/-! ### The first rule that finds something -/

/-- What the first of several rules that finds something finds. -/
def firstOf (rules : List Rule) : Finder := fun t =>
  rules.findSome? fun r => (r.spellingAt t).map fun w => (w, r.meaning)

/-- The text with the entities of all rules replaced, in a single pass. -/
def scan (rules : List Rule) (t : Text) : Text := rewrite (firstOf rules) t

theorem firstOf_append (rules more : List Rule) (t : Text) :
    firstOf (rules ++ more) t = (firstOf rules t).or (firstOf more t) := List.findSome?_append

theorem firstOf_cons_of_none {r : Rule} {t : Text} (h : r.spellingAt t = none) (rules : List Rule) :
    firstOf (r :: rules) t = firstOf rules t := by
  unfold firstOf
  rw [List.findSome?_cons, h]
  rfl

theorem firstOf_cons_of_some {r : Rule} {t w : Text} (h : r.spellingAt t = some w) (rules : List Rule) :
    firstOf (r :: rules) t = some (w, r.meaning) := by
  unfold firstOf
  rw [List.findSome?_cons, h]
  rfl

theorem exists_of_firstOf {rules : List Rule} {t w m : Text} (h : firstOf rules t = some (w, m)) :
    ∃ r ∈ rules, r.spellingAt t = some w ∧ r.meaning = m := by
  obtain ⟨r, hr, hs⟩ := List.exists_of_findSome?_eq_some h
  obtain ⟨w', hw, he⟩ := Option.map_eq_some_iff.1 hs
  obtain ⟨rfl, rfl⟩ := Prod.mk.inj he
  exact ⟨r, hr, hw, rfl⟩

theorem firstOf_proper {rules : List Rule} (hr : ∀ r ∈ rules, r.Proper) : (firstOf rules).Proper := by
  intro t w m h
  obtain ⟨r, hmem, hs, -⟩ := exists_of_firstOf h
  exact (hr r hmem).exists_body hs

/-- Texts that begin with the same body characters show the same entity. -/
theorem firstOf_congr {rules : List Rule} (hr : ∀ r ∈ rules, r.Proper) {t t' : Text}
    (h : t.takeWhile isBody = t'.takeWhile isBody) : firstOf rules ('&' :: t) = firstOf rules ('&' :: t') := by
  induction rules with
  | nil => rfl
  | cons r rules ih =>
    rw [List.forall_mem_cons] at hr
    have hs := hr.1.spellingAt_congr h
    rcases hx : r.spellingAt ('&' :: t) with _ | w
    · rw [firstOf_cons_of_none hx, firstOf_cons_of_none (hs ▸ hx), ih hr.2]
    · rw [firstOf_cons_of_some hx, firstOf_cons_of_some (hs ▸ hx)]

/-! ### Rules that do not feed others -/

/-- What a rule writes has no ampersand in it and begins with a character that no entity contains. -/
def Rule.Opaque (r : Rule) : Prop := '&' ∉ r.meaning ∧ r.meaning.head?.map isBody = some false

instance (r : Rule) : Decidable r.Opaque :=
  inferInstanceAs (Decidable ('&' ∉ r.meaning ∧ r.meaning.head?.map isBody = some false))

theorem firstOf_avoids {rules : List Rule} (hr : ∀ r ∈ rules, r.Opaque) : (firstOf rules).Avoids isBody := by
  intro t w m h
  obtain ⟨r, hmem, -, rfl⟩ := exists_of_firstOf h
  obtain ⟨-, hhead⟩ := hr r hmem
  cases hm : r.meaning with
  | nil => rw [hm] at hhead; cases hhead
  | cons c m' =>
    rw [hm] at hhead
    exact ⟨c, m', rfl, Option.some.inj hhead⟩

theorem Rule.apply_eq_scan (r : Rule) (t : Text) : r.apply t = scan [r] t := by
  have hfinder : r.finder (fun _ => true) = firstOf [r] := by
    funext t
    unfold Rule.finder
    split
    · rename_i hs
      rw [firstOf_cons_of_none hs]
      rfl
    · rename_i w hs
      rw [firstOf_cons_of_some hs]
      rfl
  unfold Rule.apply
  rw [Rule.applyFrom_eq, hfinder]
  rfl

/-- **A rule that feeds no other, and other rules after it, do what they do in one pass.** -/
theorem scan_scan {r : Rule} {rules : List Rule} (hr : r.Proper) (hrules : ∀ r' ∈ rules, r'.Proper)
    (ho : r.Opaque) (t : Text) : scan rules (scan [r] t) = scan (r :: rules) t := by
  have hfirst : (firstOf [r]).Proper := firstOf_proper (by simpa using hr)
  have hlater : (firstOf rules).Proper := firstOf_proper hrules
  have hall : (firstOf (r :: rules)).Proper := firstOf_proper (List.forall_mem_cons.2 ⟨hr, hrules⟩)
  have havoids : (firstOf [r]).Avoids isBody := firstOf_avoids (by simpa using ho)
  have hkeep (t : Text) : (scan [r] t).takeWhile isBody = t.takeWhile isBody :=
    rewrite_takeWhile hfirst (by decide) havoids t
  induction t using hall.induction with
  | nil => simp [scan]
  | copy c t hx ih =>
    have hs : r.spellingAt (c :: t) = none := by
      by_contra hs
      obtain ⟨w, hs⟩ := Option.ne_none_iff_exists'.1 hs
      rw [firstOf_cons_of_some hs] at hx
      cases hx
    rw [firstOf_cons_of_none hs] at hx
    have hcopy : scan [r] (c :: t) = c :: scan [r] t := rewrite_cons_of_none (firstOf_cons_of_none hs [])
    have hnone : firstOf rules (c :: scan [r] t) = none := by
      by_cases hc : c = '&'
      · rw [hc, firstOf_congr hrules (hkeep t), ← hc, hx]
      · exact hlater.hit_cons hc _
    calc scan rules (scan [r] (c :: t)) = c :: scan rules (scan [r] t) := by
          rw [hcopy]
          exact rewrite_cons_of_none hnone
      _ = scan (r :: rules) (c :: t) := by
          rw [ih]
          exact (rewrite_cons_of_none (by rw [firstOf_cons_of_none hs, hx])).symm
  | entity body rest m hx hbody ih =>
    have hone : scan (r :: rules) ('&' :: (body ++ rest)) = m ++ scan (r :: rules) rest := rewrite_of_some hx
    rcases hs : r.spellingAt ('&' :: (body ++ rest)) with _ | w
    · rw [firstOf_cons_of_none hs] at hx
      have hbodycopy : scan [r] (body ++ rest) = body ++ scan [r] rest :=
        rewrite_append hfirst (ampersand_notMem_body hbody) rest
      have hcopy : scan [r] ('&' :: (body ++ rest)) = '&' :: (body ++ scan [r] rest) := by
        rw [← hbodycopy]
        exact rewrite_cons_of_none (firstOf_cons_of_none hs [])
      have hsome : firstOf rules ('&' :: (body ++ scan [r] rest)) = some ('&' :: body, m) := by
        rw [← hbodycopy, firstOf_congr hrules (hkeep _), hx]
      rw [hcopy, hone, ← ih]
      exact rewrite_of_some hsome
    · rw [firstOf_cons_of_some hs] at hx
      obtain ⟨rfl, rfl⟩ := Prod.mk.inj (Option.some.inj hx)
      have hwrite : scan [r] ('&' :: (body ++ rest)) = r.meaning ++ scan [r] rest :=
        rewrite_of_some (firstOf_cons_of_some hs [])
      rw [hwrite, hone, ← ih]
      exact rewrite_append hlater ho.1 _

/-- **Rules applied one after the other do what they do in one pass**, if none but the last can feed another. -/
theorem foldl_apply_eq_scan {rules : List Rule} {last : Rule} (hr : ∀ r ∈ rules, r.Proper) (hl : last.Proper)
    (ho : ∀ r ∈ rules, r.Opaque) (t : Text) :
    last.apply (rules.foldl (fun t r => r.apply t) t) = scan (rules ++ [last]) t := by
  induction rules generalizing t with
  | nil => exact last.apply_eq_scan t
  | cons r rules ih =>
    rw [List.forall_mem_cons] at hr ho
    have hrules : ∀ r' ∈ rules ++ [last], r'.Proper := by
      intro r' h
      rcases List.mem_append.1 h with h | h
      · exact hr.2 r' h
      · exact List.mem_singleton.1 h ▸ hl
    rw [List.foldl_cons, ih hr.2 ho.2, Rule.apply_eq_scan, List.cons_append]
    exact scan_scan hr.1 hrules ho.1 t

end LayeredFix.Pass.Entity
