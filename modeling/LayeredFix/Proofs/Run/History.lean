import LayeredFix.Run.Service
import Mathlib.Data.List.Basic

/-!
# The runs in a history

A history is a list of steps taken by a session. `Session.visits` picks out its runs, each with what was asked,
the session before and after it, and the record that came of it.
-/

namespace LayeredFix

/-- A run in a history. -/
structure Visit (τ : Type) where
  /-- The session before the run. -/
  before : Session τ
  /-- What was asked. -/
  request : Request
  /-- The record of the run. -/
  record : RunRecord
  /-- The session after the run. -/
  after : Session τ

/-- The requests in a history, in order. -/
def requests {τ : Type} (steps : List (SessionStep τ)) : List Request :=
  steps.filterMap fun
    | .run req _ => some req
    | _ => none

theorem requests_cons {τ : Type} (step : SessionStep τ) (steps : List (SessionStep τ)) :
    requests (step :: steps) = requests [step] ++ requests steps :=
  List.filterMap_append (l := [step])

variable {τ : Type} [Add τ] [Sub τ] [LT τ] [DecidableLT τ]

/-- The runs in the history of a session, in order. -/
def Session.visits (σ : Session τ) : List (SessionStep τ) → List (Visit τ)
  | [] => []
  | step :: steps =>
    let (given, σ') := σ.step step
    match step, given with
    | .run req _, some (record, _) => ⟨σ, req, record, σ'⟩ :: σ'.visits steps
    | _, _ => σ'.visits steps

/-- No step changes the service. -/
theorem Session.step_service (σ : Session τ) (step : SessionStep τ) :
    (σ.step step).2.service = σ.service := by
  cases step <;> rfl

/-- Every request of a history is answered, in order. -/
theorem Session.visits_request (σ : Session τ) (steps : List (SessionStep τ)) :
    (σ.visits steps).map Visit.request = requests steps := by
  induction steps generalizing σ with
  | nil => rfl
  | cons step steps ih => cases step <;> simp [visits, Session.step, requests, ih]

/-- The session after some steps. -/
def Session.after (σ : Session τ) (steps : List (SessionStep τ)) : Session τ :=
  steps.foldl (fun σ step => (σ.step step).2) σ

@[simp] theorem Session.after_nil (σ : Session τ) : σ.after [] = σ := rfl

theorem Session.after_append (σ : Session τ) (steps more : List (SessionStep τ)) :
    σ.after (steps ++ more) = (σ.after steps).after more := List.foldl_append

theorem Session.after_snoc (σ : Session τ) (steps : List (SessionStep τ)) (step : SessionStep τ) :
    σ.after (steps ++ [step]) = ((σ.after steps).step step).2 := σ.after_append steps [step]

theorem Session.after_service (σ : Session τ) (steps : List (SessionStep τ)) :
    (σ.after steps).service = σ.service := by
  induction steps generalizing σ with
  | nil => rfl
  | cons step steps ih => exact (ih _).trans (σ.step_service step)

end LayeredFix
