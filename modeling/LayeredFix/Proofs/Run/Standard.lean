import LayeredFix.Layer.Standard
import LayeredFix.Proofs.Run.Attempts
import LayeredFix.Proofs.Run.Outcome

/-!
# Runs of the first four layers

The layers that run if none are asked for are the first four of the standard ones. Of these only the layer for
configuration files can fail, and without the cache, and if no change is taken back, each pass works on what the one
before it left (`run_firstFour`).
-/

namespace LayeredFix

/-- What a layer makes of a text, which it leaves as it was if its pass fails. -/
def Layer.onto (layer : Layer) (t : Text) : Text :=
  match layer.transform t with
  | .ok u => u
  | .error _ => t

theorem Layer.onto_of_ok {layer : Layer} {t u : Text} (h : layer.transform t = .ok u) : layer.onto t = u := by
  unfold onto
  rw [h]

namespace Service

variable {terms : Terms}

/-- If no change is taken back, an attempt leaves what the layer makes of the text. -/
theorem after_of_plain (hplain : terms.revertOnRisk = false) (layer : Layer) (t : Text) :
    (Attempt.make terms layer t).after = layer.onto t := by
  unfold Layer.onto
  rcases Attempt.make_cases terms layer t with ⟨f, ht, hm⟩ | ⟨after, d, -, hv, -, -⟩ | ⟨after, es, ht, -, -, hm⟩
  · rw [hm, ht]
    rfl
  · have hrevert := (Attempt.verdict?_eq_some hv).1
    rw [hplain] at hrevert
    cases hrevert
  · rw [hm, ht]
    rfl

theorem map_after_attempts_cons (hplain : terms.revertOnRisk = false) (layer : Layer) (rest : List Layer) (t : Text) :
    (attempts terms (layer :: rest) t).map Attempt.after =
      layer.onto t :: (attempts terms rest (layer.onto t)).map Attempt.after := by
  rw [attempts, List.map_cons, after_of_plain hplain]

end Service

/-! ### The first four layers -/

/-- A request for the first four layers, without the cache. -/
def Request.firstFour (t : Text) : Request := { text := t, layers := some [1, 2, 3, 4], useCache := false }

/-- A text after the layer for configuration files. -/
def configured (t : Text) : Text := Layer.config.onto t

/-- A text after the layer for entities. -/
def decoded (t : Text) : Text := Pass.Entity.transform (configured t)

/-- A text after the layer for component code. -/
def repaired (t : Text) : Text := Pass.Component.transform (decoded t)

/-- A text after the layer that inserts host guards. -/
def guarded (t : Text) : Text := Pass.Guard.transform (repaired t)

theorem configured_of_ok {t u : Text} (h : Pass.Config.transform t = .ok u) : configured t = u :=
  @Layer.onto_of_ok Layer.config t u h

theorem plan_firstFour {s : Service} (hs : s.registry = Layer.standard) (t : Text) :
    s.plan (.firstFour t) = [Layer.config, Layer.entities, Layer.components, Layer.guards] := by
  unfold Service.plan
  rw [hs]
  rfl

theorem map_after_tries_firstFour {s : Service} (hs : s.registry = Layer.standard) (t : Text) :
    (s.tries (.firstFour t)).map Attempt.after = [configured t, decoded t, repaired t, guarded t] := by
  have hplain : (s.terms (.firstFour t)).revertOnRisk = false := rfl
  have htext : (Request.firstFour t).text = t := rfl
  have hentities (u : Text) : Layer.entities.onto u = Pass.Entity.transform u := Layer.onto_of_ok rfl
  have hcomponents (u : Text) : Layer.components.onto u = Pass.Component.transform u := Layer.onto_of_ok rfl
  have hguards (u : Text) : Layer.guards.onto u = Pass.Guard.transform u := Layer.onto_of_ok rfl
  unfold Service.tries guarded repaired decoded configured
  rw [plan_firstFour hs, htext, Service.map_after_attempts_cons hplain, Service.map_after_attempts_cons hplain, hentities,
    Service.map_after_attempts_cons hplain, hcomponents, Service.map_after_attempts_cons hplain, hguards,
    Service.attempts, List.map_nil]

variable {τ : Type} [Sub τ] [LT τ] [DecidableLT τ]

/-- **The outputs of a run of the first four layers**, each pass on what the one before it left. -/
theorem run_firstFour {s : Service} (hs : s.registry = Layer.standard) (t : Text) (now : τ) (c : Cache τ)
    (r : Recorder) :
    (s.run now (.firstFour t) c r).1.1.outputs = [t, configured t, decoded t, repaired t, guarded t] ∧
      (s.run now (.firstFour t) c r).1.1.output = guarded t := by
  obtain ⟨extra, hrun⟩ := s.run_of_not_caches (.firstFour t) rfl now c r
  have htries := map_after_tries_firstFour hs t
  rw [hrun]
  generalize s.tries (.firstFour t) = as at htries ⊢
  generalize configured t = y₁, decoded t = y₂, repaired t = y₃, guarded t = y₄ at htries ⊢
  refine ⟨congrArg (t :: ·) htries, ?_⟩
  show Service.finalText t as = y₄
  unfold Service.finalText
  rw [← List.getLast?_map, htries]
  rfl

end LayeredFix
