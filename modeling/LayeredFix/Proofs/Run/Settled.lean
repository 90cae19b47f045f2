import LayeredFix.Proofs.Check.Reasons
import LayeredFix.Proofs.Guard.Entities
import LayeredFix.Proofs.Run.Documents

/-!
# Runs of the layers for entities and host guards

The layer for entities writes texts without entities, and the layer that inserts host guards makes none. So a run of
the two leaves a text to which neither has anything to do.

That takes both changes to stand. The change of the second layer is checked leniently and always does. The change of
the first may be taken back, and may stand in a second run, because the text is another one by then. `run_settles` says
that nothing else changes the text, and `run_changes_later` that this does.
-/

namespace LayeredFix

/-- A request for the layers for entities and host guards, without the cache. -/
def Request.entitiesAndGuards (t : Text) (revert : Bool) : Request :=
  { text := t, layers := some [2, 4], useCache := false, revertOnRisk := revert }

/-! ### Layers that do not fail -/

namespace Attempt

variable {layer : Layer} {t u : Text}

/-- The change of a layer that does not fail stands, or it is taken back. -/
theorem make_of_ok (terms : Terms) (h : layer.transform t = .ok u) :
    ((make terms layer t).after = u ∧ (make terms layer t).result.success = true) ∨
      ((make terms layer t).after = t ∧ (make terms layer t).result.success = false ∧ terms.revertOnRisk = true ∧
        ((CheckKind.ofLayer layer.id).decide terms.validator t u).shouldRevert = true) := by
  rcases make_cases terms layer t with ⟨f, ht, -⟩ | ⟨after, d, ht, hv, hd, hm⟩ | ⟨after, es, ht, -, -, hm⟩
  · rw [h] at ht
    cases ht
  · obtain ⟨hrevert, -, rfl⟩ := verdict?_eq_some hv
    obtain rfl : u = after := Except.ok.inj (h.symm.trans ht)
    rw [hm]
    exact Or.inr ⟨rfl, rfl, hrevert, hd⟩
  · obtain rfl : u = after := Except.ok.inj (h.symm.trans ht)
    rw [hm]
    exact Or.inl ⟨rfl, rfl⟩

/-- A layer that has nothing to do leaves the text as it is. -/
theorem after_of_fixed (terms : Terms) (h : layer.transform t = .ok t) : (make terms layer t).after = t := by
  rcases make_of_ok terms h with ⟨hafter, -⟩ | ⟨hafter, -⟩
  · exact hafter
  · exact hafter

/-- The change of a layer stands if its check does not advise against it. -/
theorem after_of_unrisky (terms : Terms) (h : layer.transform t = .ok u)
    (hcheck : ((CheckKind.ofLayer layer.id).decide terms.validator t u).shouldRevert = false) :
    (make terms layer t).after = u ∧ (make terms layer t).result.success = true :=
  (make_of_ok terms h).resolve_right fun hback => absurd (hback.2.2.2.symm.trans hcheck) (by decide)

/-- The change of the layer that inserts host guards stands. -/
theorem after_guards (terms : Terms) (t : Text) :
    (make terms Layer.guards t).after = Pass.Guard.transform t ∧ (make terms Layer.guards t).result.success = true :=
  after_of_unrisky terms rfl (Check.not_shouldRevert_lenient t _)

end Attempt

/-! ### Runs of the two layers -/

/-- The attempt of the layer for entities in a run of the two. -/
def Service.entitiesTry (s : Service) (revert : Bool) (t : Text) : Attempt :=
  Attempt.make ⟨s.validator, s.slowLimit, revert⟩ Layer.entities t

variable {τ : Type} [Sub τ] [LT τ] [DecidableLT τ]

/-- A run of the two layers inserts host guards into what the layer for entities leaves. -/
theorem run_entitiesAndGuards {s : Service} (hs : s.registry = Layer.standard) (t : Text) (revert : Bool) (now : τ)
    (c : Cache τ) (r : Recorder) :
    let record := (s.run now (.entitiesAndGuards t revert) c r).1.1
    record.output = Pass.Guard.transform (s.entitiesTry revert t).after ∧
      (2 ∈ record.failedLayers ↔ (s.entitiesTry revert t).result.success = false) := by
  intro record
  have hplan : s.plan (.entitiesAndGuards t revert) = [Layer.entities, Layer.guards] := by
    unfold Service.plan
    rw [hs]
    rfl
  obtain ⟨b, hb⟩ : ∃ b, b = Attempt.make ⟨s.validator, s.slowLimit, revert⟩ Layer.guards (s.entitiesTry revert t).after :=
    ⟨_, rfl⟩
  have htries : s.tries (.entitiesAndGuards t revert) = [s.entitiesTry revert t, b] := by
    unfold Service.tries
    rw [hplan, hb]
    rfl
  obtain ⟨hafter, hstands⟩ := Attempt.after_guards ⟨s.validator, s.slowLimit, revert⟩ (s.entitiesTry revert t).after
  rw [← hb] at hafter hstands
  obtain ⟨extra, hrun⟩ := s.run_of_not_caches (.entitiesAndGuards t revert) rfl now c r
  have hrecord : record = { s.freshRecord (.entitiesAndGuards t revert) [s.entitiesTry revert t, b] with extra := extra } := by
    rw [← htries]
    exact congrArg Prod.fst hrun
  have hid : (s.entitiesTry revert t).result.id = 2 := Attempt.make_id ..
  rw [hrecord]
  refine ⟨hafter, ?_⟩
  simp only [RunRecord.failedLayers, Service.freshRecord, List.map_cons, List.map_nil, List.filter_cons, hstands,
    List.filter_nil]
  cases (s.entitiesTry revert t).result.success <;> simp [hid]

/-- **A run of the two layers leaves a text that a second run does not change**, unless the change of the layer for
entities was taken back in the first run and stands in the second. -/
theorem run_settles {s : Service} (hs : s.registry = Layer.standard) (t : Text) (revert revert' : Bool) (now now' : τ)
    (c c' : Cache τ) (r r' : Recorder) :
    let first := (s.run now (.entitiesAndGuards t revert) c r).1.1
    let second := (s.run now' (.entitiesAndGuards first.output revert') c' r').1.1
    second.output = first.output ∨ revert = true ∧ 2 ∈ first.failedLayers ∧ 2 ∉ second.failedLayers := by
  intro first second
  obtain ⟨houtput, hfailed⟩ := run_entitiesAndGuards hs t revert now c r
  obtain ⟨houtput', hfailed'⟩ := run_entitiesAndGuards hs first.output revert' now' c' r'
  have hfirst : first.output = Pass.Guard.transform (s.entitiesTry revert t).after := houtput
  -- If the layer for entities leaves the output alone, the other layer leaves it alone too.
  have hagain (ha : (s.entitiesTry revert' first.output).after = first.output) : second.output = first.output := by
    have hguards := Pass.Guard.transform_of_settled (Pass.Guard.transform_guarded (s.entitiesTry revert t).after)
      (Pass.Guard.transform_idle _) (Pass.Guard.addClientDirective_idempotent _)
    rw [← hfirst] at hguards
    rw [ha, hguards] at houtput'
    exact houtput'
  have hok (u : Text) : Layer.entities.transform u = .ok (Pass.Entity.transform u) := rfl
  rcases Attempt.make_of_ok ⟨s.validator, s.slowLimit, revert⟩ (hok t) with
    ⟨hafter, -⟩ | ⟨-, hback, hrevert, -⟩
  · have hfree : Pass.Entity.EntityFree first.output := by
      rw [hfirst, Service.entitiesTry, hafter]
      exact Pass.Guard.entityFree_transform_of (Pass.Entity.entityFree_transform t)
    exact Or.inl (hagain (Attempt.after_of_fixed _ (congrArg Except.ok hfree.transform_eq_self)))
  · rcases Attempt.make_of_ok ⟨s.validator, s.slowLimit, revert'⟩ (hok first.output) with
      ⟨-, hstands⟩ | ⟨hafter', -⟩
    · refine Or.inr ⟨hrevert, hfailed.2 hback, fun hmem => ?_⟩
      exact absurd (hstands.symm.trans (hfailed'.1 hmem)) (by decide)
    · exact Or.inl (hagain hafter')

/-- The record of a run of the two layers by a service with an empty cache. -/
def settlingRecord (t : Text) (revert : Bool) : RunRecord :=
  (standardService.run (0 : Int) (.entitiesAndGuards t revert) (.empty 300) (.idle false)).1.1

theorem output_settlingRecord (t : Text) (revert : Bool) : (settlingRecord t revert).output =
    Pass.Guard.transform (standardService.entitiesTry revert t).after :=
  (run_entitiesAndGuards (s := standardService) rfl t revert (0 : Int) (.empty 300) (.idle false)).1

/-- Markup that is written with entities, around state that uses a global of the host. -/
def escapedPage : Text :=
  ["&lt;a const [q, setQ]", " = useState(window.x)", "&gt;&lt;/b&gt;"].flatMap String.toList

theorem run_settles_escapedPage :
    (settlingRecord (settlingRecord escapedPage false).output true).output = (settlingRecord escapedPage false).output := by
  rcases run_settles (s := standardService) rfl escapedPage false true (0 : Int) (0 : Int) (.empty 300) (.empty 300)
    (.idle false) (.idle false) with h | ⟨h, -⟩
  · exact h
  · cases h

/-- The state with the flag and the guard. -/
def guardedState : Text :=
  ["const [mounted, ", "setMounted] = useState", "(false);\n", "  useEffect(() => \x7b\n", "    setMounted(true);\n",
   "  \x7d, []);\n", "  const [q, setQ] = ", "useState(typeof window", " !== \"undefined\" && ",
   "window.x)"].flatMap String.toList

/-- The page after a run that takes the change of the layer for entities back. -/
def guardedPage : Text := "'use client';\n\n&lt;a ".toList ++ guardedState ++ "&gt;&lt;/b&gt;".toList

/-- **A change that was taken back may stand in a second run.** The layer for entities is kept from writing a tag that
another one closes. Once the flag has been put into the tag, it is no longer taken for one. -/
theorem run_changes_later :
    (settlingRecord (settlingRecord escapedPage true).output true).output ≠ (settlingRecord escapedPage true).output := by
  have hback : (standardService.entitiesTry true escapedPage).after = escapedPage := by decide +kernel
  have hguards : Pass.Guard.transform escapedPage = guardedPage := by decide +kernel
  have hfirst : (settlingRecord escapedPage true).output = guardedPage := by rw [output_settlingRecord, hback, hguards]
  have hdecoded : Pass.Entity.transform guardedPage =
      "'use client';\n\n<a ".toList ++ guardedState ++ "></b>".toList :=
    (Pass.Entity.transform_of_occursIn (by decide)).trans (by decide +kernel)
  have hafter : (standardService.entitiesTry true guardedPage).after = Pass.Entity.transform guardedPage := by
    refine (Attempt.after_of_unrisky _ rfl ?_).1
    rw [hdecoded]
    decide +kernel
  -- The second output has no entities, the first one has.
  intro hsame
  rw [hfirst, output_settlingRecord, hafter] at hsame
  have hfree := Pass.Guard.entityFree_transform_of (Pass.Entity.entityFree_transform guardedPage)
  rw [hsame] at hfree
  obtain ⟨r, hr, hw⟩ : ∃ r ∈ Pass.Entity.allRules, "&gt;".toList ∈ r.spellings := by decide
  exact hfree r hr _ hw ((Text.occursIn_iff _ _).1 (by decide))

end LayeredFix
