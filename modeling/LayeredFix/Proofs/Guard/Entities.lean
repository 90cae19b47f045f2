import LayeredFix.Proofs.Entity.Free
import LayeredFix.Proofs.Guard.FixedPoint

/-!
# Host guards and entities

A test has ampersands, and the flag has semicolons, but neither has both, and what is put in begins with a word that a
blank ends. So an ampersand in front of it stays without its semicolon, and the pass that inserts host guards makes no
entity (`entityFree_transform_of`).
-/

namespace LayeredFix.Pass.Guard

open Pattern
open Entity (EntityFree allRules allRules_proper isBody)

variable {w a x mid z : Text} {c d e : Char}

/-- A word that is written like an entity: an ampersand, characters of a body, and a semicolon at the end. -/
def IsEntity (w : Text) : Prop := ∃ name, w = '&' :: name ++ [';'] ∧ ∀ c ∈ name, isBody c = true

/-- Every spelling of the table is written like an entity. -/
theorem isEntity_of_mem {r : Entity.Rule} (hr : r ∈ allRules) (hw : w ∈ r.spellings) : IsEntity w := by
  have hends : ∀ r ∈ allRules, ∀ w ∈ r.spellings, w = '&' :: w.tail.dropLast ++ [';'] := by decide +kernel
  refine ⟨w.tail.dropLast, hends r hr w hw, fun c hc => ?_⟩
  exact List.all_eq_true.1 (allRules_proper r hr w hw).2 c ((List.dropLast_sublist _).subset hc)

/-- A character that stands in no entity. -/
def Parts (c : Char) : Prop := isBody c = false ∧ c ≠ '&'

theorem IsEntity.notMem (hw : IsEntity w) (hc : Parts c) : c ∉ w := by
  obtain ⟨name, rfl, hname⟩ := hw
  have hsemicolon : c ≠ ';' := by
    rintro rfl
    exact absurd hc.1 (by decide)
  simp only [List.cons_append, List.mem_cons, List.mem_append, List.not_mem_nil, or_false, not_or]
  exact ⟨hc.2, fun hmem => absurd ((hname c hmem).symm.trans hc.1) (by decide), hsemicolon⟩

/-- A stretch has no entity if it has no ampersand or no semicolon. -/
theorem IsEntity.not_infix (hw : IsEntity w) (hmid : '&' ∉ mid ∨ ';' ∉ mid) : ¬ w <:+: mid := by
  obtain ⟨name, rfl, -⟩ := hw
  intro h
  rcases hmid with hmid | hmid
  · exact hmid (h.subset (by simp))
  · exact hmid (h.subset (by simp))

/-- An entity stands in front of what is put in or behind it, if that begins with a word and does not hold it. -/
theorem IsEntity.infix_of_between (hw : IsEntity w) (hd : Parts d) (he : Parts e) (hx : ';' ∉ x)
    (hmid : '&' ∉ mid ∨ ';' ∉ mid) (h : w <:+: a ++ (x ++ d :: (mid ++ e :: z))) : w <:+: a ∨ w <:+: z := by
  rw [← List.append_assoc, Text.infix_append_cons_iff (hw.notMem hd), Text.infix_append_cons_iff (hw.notMem he),
    or_iff_right (hw.not_infix hmid)] at h
  refine h.imp_left fun h => ?_
  obtain ⟨name, rfl, -⟩ := hw
  exact Text.infix_of_last_notMem h hx

/-! ### The parts of the pass -/

theorem IsEntity.infix_addEnvironmentGuards (hw : IsEntity w) {t : Text} (h : w <:+: addEnvironmentGuards t) :
    w <:+: t := by
  obtain ⟨name, rfl, -⟩ := id hw
  refine infix_of_infix_addEnvironmentGuards (fun r hr matched => ?_) h
  obtain ⟨body, heq, -, hno⟩ := guarded_shape hr
  exact Or.inr ⟨_, _, _, _, heq, by decide, hw.notMem ⟨by decide, by decide⟩, hw.notMem ⟨by decide, by decide⟩,
    fun hin => absurd hin (hw.not_infix (Or.inr hno))⟩

theorem IsEntity.infix_mountedState (hw : IsEntity w)
    (h : w <:+: a ++ (mountedState ++ "const [".toList ++ z)) : w <:+: a ∨ w <:+: z := by
  obtain ⟨mid, hstate, hmid⟩ : ∃ mid, mountedState ++ "const [".toList = "const".toList ++ ' ' :: (mid ++ ['[']) ∧
      '&' ∉ mid := ⟨(mountedState ++ "const ".toList).drop 6, by decide, by decide⟩
  have hx : ';' ∉ "const".toList := by decide
  refine hw.infix_of_between (d := ' ') (e := '[') ⟨by decide, by decide⟩ ⟨by decide, by decide⟩ hx (Or.inl hmid) ?_
  rw [hstate] at h
  simpa using h

theorem IsEntity.infix_mountedRender (hw : IsEntity w) (h : w <:+: a ++ (mountedRender ++ z)) :
    w <:+: a ∨ w <:+: z := by
  obtain ⟨mid, hrender, hmid⟩ : ∃ mid, mountedRender = "if".toList ++ ' ' :: (mid ++ ['(']) ∧ '&' ∉ mid :=
    ⟨mountedRender.dropLast.drop 3, by decide, by decide⟩
  have hx : ';' ∉ "if".toList := by decide
  refine hw.infix_of_between (d := ' ') (e := '(') ⟨by decide, by decide⟩ ⟨by decide, by decide⟩ hx (Or.inl hmid) ?_
  rw [hrender] at h
  simpa using h

theorem IsEntity.infix_addMountedState (hw : IsEntity w) {t : Text} (h : w <:+: addMountedState t) : w <:+: t := by
  by_cases hidle : Idle t
  · rwa [addMountedState_of_idle hidle] at h
  · obtain ⟨a, z, rfl, heq⟩ := addMountedState_of_not_idle hidle
    have hflag : w <:+: a ++ (mountedState ++ "const [".toList ++ z) := by
      rw [heq] at h
      rcases replaceFirst_mountedRender (a ++ (mountedState ++ "const [".toList ++ z)) with hr | ⟨a', blanks, z', ht, -, hr⟩
      · rwa [hr] at h
      · rw [hr] at h
        rw [ht]
        rcases hw.infix_mountedRender h with hin | hin
        · exact hin.trans (List.prefix_append _ _).isInfix
        · exact hin.trans ⟨a' ++ ("return".toList ++ blanks ++ ['(']), [], by simp⟩
    rcases hw.infix_mountedState hflag with hin | hin
    · exact hin.trans (List.prefix_append _ _).isInfix
    · exact hin.trans ⟨a ++ "const [".toList, [], by simp⟩

theorem IsEntity.infix_addClientDirective (hw : IsEntity w) {t : Text} (h : w <:+: addClientDirective t) :
    w <:+: t := by
  rcases addClientDirective_eq t with heq | heq
  · rwa [heq] at h
  · have hmark : Text.occursIn w (clientDirective ++ "\n").toList = false :=
      Text.occursIn_eq_false_iff.2 (hw.not_infix (Or.inl (by decide)))
    rwa [heq, ← Text.occursIn_iff, occursIn_markClient (hw.notMem ⟨by decide, by decide⟩) hmark, Text.occursIn_iff] at h

/-- **The pass makes no entity.** -/
theorem entityFree_transform_of {t : Text} (h : EntityFree t) : EntityFree (transform t) := by
  intro r hr w hw hin
  have hentity := isEntity_of_mem hr hw
  exact h r hr w hw (hentity.infix_addEnvironmentGuards
    (hentity.infix_addMountedState (hentity.infix_addClientDirective hin)))

/-! ### A text that the pass has written -/

/-- A guarded text that has no reason for the flag and for the mark is left alone. -/
theorem transform_of_settled {t : Text} (hguarded : Guarded t) (hidle : Idle t) (hmarked : addClientDirective t = t) :
    transform t = t := by
  rw [transform, addEnvironmentGuards_of_guarded hguarded, addMountedState_of_idle hidle, hmarked]

end LayeredFix.Pass.Guard
