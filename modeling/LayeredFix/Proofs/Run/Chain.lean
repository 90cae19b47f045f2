import LayeredFix.Proofs.Check.Reasons
import LayeredFix.Proofs.Run.Attempts
import LayeredFix.Proofs.Run.Outcome

/-!
# The record of a run is a faithful chain

The record of a run that the cache does not answer lists the layers that were asked for, in ascending order, a
result for each of them, and the texts from the one given to the one that came out. Each result tells the truth
about the layer between two neighbouring texts: the change stands, or the pass failed, or the change was taken back
for a reason (`Link`). One attempt is such a link (`Attempt.link`); what carries the result is that the attempt at
each place starts from the text at the same place of the record (`attempts_at`).
-/

namespace LayeredFix

/-! ### What a result says -/

namespace LayerResult

/-- The pass changed the text as the result says, and the change stands. -/
structure Stands (x : LayerResult) (layer : Layer) (before after : Text) : Prop where
  success : x.success = true
  transform : layer.transform before = .ok after
  message : x.message = none
  improvements : x.improvements = LayeredFix.improvements before after

/-- The pass failed, and the text is as it was. -/
structure Raised (x : LayerResult) (layer : Layer) (before after : Text) : Prop where
  success : x.success = false
  same : after = before
  count : x.changeCount = 0
  improvements : x.improvements = []
  failure : ∃ f, layer.transform before = .error f ∧ x.message = some ("Layer failed: ".toList ++ f.message)

/-- The pass changed the text, but the check of the layer advised against the change and said why, and the text is
as it was. -/
structure TakenBack (x : LayerResult) (terms : Terms) (layer : Layer) (before after : Text) : Prop where
  success : x.success = false
  same : after = before
  count : x.changeCount = 0
  improvements : x.improvements = ["Prevented code corruption".toList]
  revertOnRisk : terms.revertOnRisk = true
  advice : ∃ proposed reason, layer.transform before = .ok proposed ∧ proposed ≠ before ∧
    ((CheckKind.ofLayer layer.id).decide terms.validator before proposed).shouldRevert = true ∧
    ((CheckKind.ofLayer layer.id).decide terms.validator before proposed).reason = some reason ∧
    reason ≠ [] ∧ x.message = some ("Transformation reverted: ".toList ++ reason)

/-- What a result says of its layer and of the texts before and after it. -/
structure Link (x : LayerResult) (terms : Terms) (layer : Layer) (before after : Text) : Prop where
  id : x.id = layer.id
  name : x.name = layer.name
  description : x.description = layer.description
  count : x.changeCount = LayeredFix.changeCount before after
  outcome : x.Stands layer before after ∨ x.Raised layer before after ∨ x.TakenBack terms layer before after

end LayerResult

@[simp] theorem placesChanged_self (ls : List Text) : placesChanged ls ls = 0 := by
  induction ls with
  | nil => rfl
  | cons l ls ih => simp [placesChanged, ih]

@[simp] theorem changeCount_self (t : Text) : changeCount t t = 0 := placesChanged_self _

/-- **An attempt is a link** between the text before it and the text after it. -/
theorem Attempt.link (terms : Terms) (layer : Layer) (t : Text) :
    (make terms layer t).result.Link terms layer t (make terms layer t).after := by
  rcases make_cases terms layer t with
    ⟨f, ht, hm⟩ | ⟨proposed, d, ht, hv, hd, hm⟩ | ⟨after, es, ht, -, -, hm⟩ <;> rw [hm]
  · refine ⟨rfl, rfl, rfl, ?_, Or.inr (Or.inl ⟨rfl, rfl, rfl, rfl, f, ht, rfl⟩)⟩
    simp [failed]
  · obtain ⟨hrevert, hchanged, rfl⟩ := verdict?_eq_some hv
    obtain ⟨r, m, hr⟩ := (CheckKind.ofLayer layer.id).exists_reason hd
    refine ⟨rfl, rfl, rfl, ?_, Or.inr (Or.inr ⟨rfl, rfl, ?_, rfl, hrevert, proposed, r.message, ht, hchanged, hd,
      by rw [hr]; rfl, r.message_ne_nil, ?_⟩)⟩
    · rfl
    · simp [reverted]
    · rw [hr]
      rfl
  · exact ⟨rfl, rfl, rfl, rfl, Or.inl ⟨rfl, ht, rfl, rfl⟩⟩

/-! ### The record -/

/-- What the record of a run says of the request. -/
structure RunRecord.Faithful (record : RunRecord) (s : Service) (req : Request) : Prop where
  /-- The layers are in ascending order. -/
  ascending : record.layers.Pairwise (· < ·)
  /-- They are those of the registry that were asked for. -/
  selected : ∀ id, id ∈ record.layers ↔ id ∈ s.registry.ids ∧ id ∈ req.layers.getD s.defaultLayers
  /-- There is a result for each of them, in the same order. -/
  results : record.results.map LayerResult.id = record.layers
  /-- There is one more output than there are results. -/
  length : record.outputs.length = record.results.length + 1
  /-- The first output is the text given. -/
  first : record.input = req.text ∧ record.outputs.head? = some req.text
  /-- The last one is the text that came out. -/
  last : record.outputs.getLast? = some record.output
  /-- Each result is a link between two neighbouring outputs. -/
  links : ∀ i x before after, record.results[i]? = some x → record.outputs[i]? = some before →
    record.outputs[i + 1]? = some after → ∃ layer ∈ s.registry.layers, x.Link (s.terms req) layer before after

namespace Service

theorem getLast?_outputs (t : Text) (as : List Attempt) :
    (t :: as.map Attempt.after).getLast? = some (finalText t as) := by
  unfold finalText
  rw [List.getLast?_cons, List.getLast?_map]

/-- The record of the attempts of a run is faithful. -/
theorem faithful_freshRecord (s : Service) (req : Request) : (s.freshRecord req (s.tries req)).Faithful s req where
  ascending := List.pairwise_map.2 (s.registry.ascending.filter _)
  selected _ := mem_map_plan
  results := by
    show ((s.tries req).map Attempt.result).map LayerResult.id = _
    rw [List.map_map]
    exact attempts_ids _ _ _
  length := by simp [freshRecord]
  first := ⟨rfl, rfl⟩
  last := getLast?_outputs _ _
  links i x before after hx hbefore hafter := by
    obtain ⟨a, ha, rfl⟩ : ∃ a, (s.tries req)[i]? = some a ∧ a.result = x := by
      simpa [freshRecord] using hx
    obtain ⟨layer, before', hlayer, hbefore', rfl⟩ := attempts_at _ ha
    have hsame : before' = before := Option.some.inj (hbefore'.symm.trans hbefore)
    have hnext : (Attempt.make (s.terms req) layer before').after = after := by
      simpa [freshRecord, ha] using hafter
    subst hsame hnext
    exact ⟨layer, (List.mem_filter.1 (List.mem_of_getElem? hlayer)).1, Attempt.link _ _ _⟩

end Service

/-- A faithful record stays faithful if something is added to it from outside. -/
theorem RunRecord.Faithful.withExtra {record : RunRecord} {s : Service} {req : Request}
    (h : record.Faithful s req) (extra : Option (Entries Json)) : { record with extra := extra }.Faithful s req :=
  ⟨h.ascending, h.selected, h.results, h.length, h.first, h.last, h.links⟩

variable {τ : Type} [Sub τ] [LT τ] [DecidableLT τ]

/-- **The record of a run is a faithful chain.** A run without the cache is not answered by it; and the record of a
run that the cache does not answer, of any text, with any layers asked for in any order, and with or without taking
changes back, tells what was done. -/
theorem run_faithful (s : Service) (req : Request) (now : τ) (c : Cache τ) (r : Recorder) :
    let record := (s.run now req c r).1.1
    ((req.useCache && s.cacheEnabled) = false → record.cacheHit = false) ∧
      (record.cacheHit = false → record.Faithful s req) := by
  intro record
  obtain ⟨extra, hrun⟩ := s.run_fst now req c r
  have hrecord : record = { (s.outcome now req c).1 with extra := extra } := congrArg Prod.fst hrun
  rw [hrecord]
  refine ⟨fun hc => ?_, ?_⟩
  · rw [Service.outcome_of_not_caches hc]
    rfl
  · unfold Service.outcome
    rcases s.lookUp now req c with ⟨_ | output, c'⟩
    · exact fun _ => (s.faithful_freshRecord req).withExtra extra
    · exact fun hmiss => nomatch hmiss

/-- A service with a layer that adds a semicolon, one that fails, and one that damages the text. -/
def mixedService : Service where
  registry :=
    { layers :=
        [{ id := 1, name := [], description := [], transform := fun t => .ok (t ++ [';']) },
         { id := 2, name := [], description := [], transform := fun _ => .error default },
         { id := 3, name := [], description := [], transform := fun t => .ok (t ++ "<a></b>".toList) }]
      ascending := by decide }

/-- A request for these layers in another order, one of them twice, with one that does not exist. -/
def mixedRequest : Request := { text := ['x'], layers := some [3, 2, 9, 1, 2], useCache := false, revertOnRisk := true }

/-- Only the semicolon stays. -/
theorem run_faithful_mixed :
    let record := (mixedService.run (0 : Int) mixedRequest (.empty 10) (.idle false)).1.1
    (mixedRequest.useCache && mixedService.cacheEnabled) = false ∧ record.cacheHit = false ∧
      record.Faithful mixedService mixedRequest ∧
      record.outputs = [['x'], ['x', ';'], ['x', ';'], ['x', ';']] ∧
      record.results.map LayerResult.message = [none, some "Layer failed: ".toList,
        some "Transformation reverted: Transformation introduced code corruption".toList] :=
  have h := run_faithful mixedService mixedRequest (0 : Int) (.empty 10) (.idle false)
  have huncached : (mixedRequest.useCache && mixedService.cacheEnabled) = false := by decide
  ⟨huncached, h.1 huncached, h.2 (h.1 huncached), by decide, by decide⟩

end LayeredFix
