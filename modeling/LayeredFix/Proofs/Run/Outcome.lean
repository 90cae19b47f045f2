import LayeredFix.Run.Service
import Mathlib.Data.List.Basic

/-!
# What a run gives, apart from what is recorded

A run logs events and opens spans on the way. Here the two are taken apart. `Service.outcome` is the record of
a run and the cache after it, `Service.reported` the events, both without a recorder; `run_fst` and
`run_events` say that a run gives just these, whatever the recorder was, but for the tree of spans that may be
added to the record and for the event that ends the outer span.
-/

namespace LayeredFix

/-! ### Recording -/

namespace Recorder

variable {α : Type}

@[simp] theorem events_log (es : List Event) (r : Recorder) : (r.log es).events = r.events ++ es := rfl

@[simp] theorem events_push (name : Text) (r : Recorder) : (r.push name).events = r.events := rfl

@[simp] theorem events_note (key : Text) (value : Json) (r : Recorder) :
    (r.note key value).events = r.events := by
  unfold note
  split <;> rfl

@[simp] theorem events_close (r : Recorder) : r.close.events = r.events := by
  unfold close
  split <;> rfl

/-- A span changes nothing about the result of the work in it, if the work does not look at the recorder. -/
theorem within_fst {name : Text} {work : Bool → Recorder → α × Recorder} {a : α}
    (h : ∀ active r, (work active r).1 = a) (r : Recorder) : (r.within name work).1 = a := by
  unfold within
  split
  · exact h true _
  · exact h false r

/-- A span adds no events of its own to those of the work in it. -/
theorem within_events {name : Text} {work : Bool → Recorder → α × Recorder} {es : List Event}
    (h : ∀ active r, (work active r).2.events = r.events ++ es) (r : Recorder) :
    (r.within name work).2.events = r.events ++ es := by
  unfold within
  split
  · show (work true (r.push name)).2.close.events = r.events ++ es
    rw [events_close, h, events_push]
  · exact h false r

/-- The result of a call is the result of the work in it, or what the tree of the call makes of that. -/
theorem call_fst {name : Text} {fails : α → Bool} {give : Span → α → α} {work : Recorder → α × Recorder}
    {a : α} (h : ∀ r, (work r).1 = a) (r : Recorder) :
    (r.call name fails give work).1 = a ∨ ∃ root, (r.call name fails give work).1 = give root a := by
  unfold call
  split
  · have hw := h (r.push name)
    generalize work (r.push name) = w at hw
    obtain ⟨a, r'⟩ := w
    subst hw
    rcases hp : r'.path with _ | ⟨root, rest⟩
    · exact Or.inl (by simp [hp])
    · simp only [hp]
      split
      · exact Or.inl rfl
      · exact Or.inr ⟨root, rfl⟩
  · exact Or.inl (h r)

/-- A call adds at most the event of its end to the events of the work in it. -/
theorem call_events {name : Text} {fails : α → Bool} {give : Span → α → α}
    {work : Recorder → α × Recorder} {es : List Event}
    (h : ∀ r, (work r).2.events = r.events ++ es) (r : Recorder) :
    ∃ ended, (r.call name fails give work).2.events = r.events ++ es ++ ended ∧
      (ended = [] ∨ ∃ name ok children, ended = [.spanComplete name ok children]) := by
  unfold call
  split
  · have hw := h (r.push name)
    rw [events_push] at hw
    generalize work (r.push name) = w at hw
    obtain ⟨a, r'⟩ := w
    rcases hp : r'.path with _ | ⟨root, rest⟩
    · exact ⟨[], by simpa [hp] using hw, Or.inl rfl⟩
    · simp only [hp]
      split
      · exact ⟨_, by rw [events_log]; exact congrArg (· ++ _) hw, Or.inr ⟨_, _, _, rfl⟩⟩
      · exact ⟨_, by rw [events_log]; exact congrArg (· ++ _) hw, Or.inr ⟨_, _, _, rfl⟩⟩
  · exact ⟨[], by rw [h, List.append_nil], Or.inl rfl⟩

end Recorder

namespace Service

/-! ### The layers of a run -/

theorem tryLayer_fst (terms : Terms) (layer : Layer) (t : Text) (r : Recorder) :
    (tryLayer terms layer t r).1 = Attempt.make terms layer t :=
  Recorder.within_fst (a := Attempt.make terms layer t) (fun _ _ => rfl) r

@[simp] theorem events_noteAttempt (a : Attempt) (r : Recorder) : (noteAttempt a r).events = r.events := by
  unfold noteAttempt
  split <;> simp

theorem tryLayer_events (terms : Terms) (layer : Layer) (t : Text) (r : Recorder) :
    (tryLayer terms layer t r).2.events = r.events ++ (Attempt.make terms layer t).events := by
  refine Recorder.within_events (fun active r => ?_) r
  cases active <;> simp

/-- Spans change nothing about the attempts. -/
theorem tryLayers_fst (terms : Terms) (layers : List Layer) (t : Text) (r : Recorder) :
    (tryLayers terms layers t r).1 = attempts terms layers t := by
  induction layers generalizing t r with
  | nil => rfl
  | cons layer rest ih =>
    simp only [tryLayers, attempts, tryLayer_fst, ih]

/-- The events of the attempts are logged one attempt after the other. -/
theorem tryLayers_events (terms : Terms) (layers : List Layer) (t : Text) (r : Recorder) :
    (tryLayers terms layers t r).2.events =
      r.events ++ (attempts terms layers t).flatMap Attempt.events := by
  induction layers generalizing t r with
  | nil => simp [tryLayers, attempts]
  | cons layer rest ih =>
    simp only [tryLayers, attempts, tryLayer_fst, ih, tryLayer_events, List.flatMap_cons, List.append_assoc]

/-! ### A whole run -/

/-- The attempts of a run that the cache does not answer. -/
def tries (s : Service) (req : Request) : List Attempt := attempts (s.terms req) (s.plan req) req.text

/-- The text that a run gives if the cache does not answer it. -/
def answer (s : Service) (req : Request) : Text := finalText req.text (s.tries req)

/-- Whether a run reads the cache and writes to it. -/
def caches (s : Service) (req : Request) : Bool := req.useCache && s.cacheEnabled

theorem cacheKey?_of_not_caches {s : Service} {req : Request} (h : s.caches req = false) :
    s.cacheKey? req = none := if_neg (by simpa [caches] using h)

variable {τ : Type} [Sub τ] [LT τ] [DecidableLT τ]

/-- The record of a run and the cache after it, without the tree of spans. -/
def outcome (s : Service) (now : τ) (req : Request) (c : Cache τ) : RunRecord × Cache τ :=
  match s.lookUp now req c with
  | (some output, c) => (s.hitRecord req output, c)
  | (none, c) =>
    let record := s.freshRecord req (s.tries req)
    (record, (s.keep now req record.output c).2)

/-- The events of a run, but for the one that ends the outer span. -/
def reported (s : Service) (now : τ) (req : Request) (c : Cache τ) : List Event :=
  match s.lookUp now req c with
  | (some output, _) => [.cacheHit (s.hitRecord req output).layers]
  | (none, c) =>
    let record := s.freshRecord req (s.tries req)
    (s.tries req).flatMap Attempt.events ++ (regressionEvents s.validator req.text record.output ++
      (s.keep now req record.output c).1 ++ [.complete record.layers record.failedLayers record.changed])

theorem perform_fst (s : Service) (now : τ) (req : Request) (c : Cache τ) (r : Recorder) :
    (s.perform now req c r).1 = s.outcome now req c := by
  unfold perform outcome
  rcases s.lookUp now req c with ⟨_ | output, c'⟩
  · simp only [tryLayers_fst, tries]
  · rfl

theorem perform_events (s : Service) (now : τ) (req : Request) (c : Cache τ) (r : Recorder) :
    (s.perform now req c r).2.events = r.events ++ s.reported now req c := by
  unfold perform reported
  rcases s.lookUp now req c with ⟨_ | output, c'⟩
  · simp only [tryLayers_fst, tryLayers_events, tries, Recorder.events_log, List.append_assoc]
  · rfl

/-- **A run gives its outcome**, with a tree of spans or without. -/
theorem run_fst (s : Service) (now : τ) (req : Request) (c : Cache τ) (r : Recorder) :
    ∃ extra, (s.run now req c r).1 =
      ({ (s.outcome now req c).1 with extra := extra }, (s.outcome now req c).2) := by
  rcases Recorder.call_fst (s.perform_fst now req c) r with h | ⟨root, h⟩
  · exact ⟨_, h⟩
  · exact ⟨_, h⟩

theorem outcome_of_not_caches {s : Service} {req : Request} (h : s.caches req = false) (now : τ) (c : Cache τ) :
    s.outcome now req c = (s.freshRecord req (s.tries req), c) := by
  unfold outcome lookUp keep
  rw [cacheKey?_of_not_caches h]

/-- A run without the cache gives the record of its attempts, and leaves the cache as it was. -/
theorem run_of_not_caches (s : Service) (req : Request) (h : s.caches req = false) (now : τ) (c : Cache τ)
    (r : Recorder) :
    ∃ extra, (s.run now req c r).1 = ({ s.freshRecord req (s.tries req) with extra := extra }, c) := by
  obtain ⟨extra, ho⟩ := s.run_fst now req c r
  rw [outcome_of_not_caches h] at ho
  exact ⟨extra, ho⟩

/-- A run without the cache is not answered by it. -/
theorem cacheHit_run_of_not_caches (s : Service) (req : Request) (h : s.caches req = false) (now : τ) (c : Cache τ)
    (r : Recorder) : (s.run now req c r).1.1.cacheHit = false := by
  obtain ⟨extra, hrun⟩ := s.run_of_not_caches req h now c r
  rw [hrun]
  rfl

/-- A run that the cache does not answer gives the record of its attempts. -/
theorem run_of_miss {s : Service} {req : Request} {now : τ} {c : Cache τ} {r : Recorder}
    (h : (s.run now req c r).1.1.cacheHit = false) :
    ∃ extra, (s.run now req c r).1.1 = { s.freshRecord req (s.tries req) with extra := extra } := by
  obtain ⟨extra, hrun⟩ := s.run_fst now req c r
  rw [hrun] at h ⊢
  refine ⟨extra, ?_⟩
  revert h
  unfold outcome
  rcases s.lookUp now req c with ⟨_ | output, c'⟩
  · exact fun _ => rfl
  · exact fun hmiss => nomatch hmiss

/-- A run without the cache reports its attempts, a result with more errors than the input, and its end. -/
theorem reported_of_not_caches (s : Service) (req : Request) (h : s.caches req = false) (now : τ)
    (c : Cache τ) :
    s.reported now req c = (s.tries req).flatMap Attempt.events ++
      (regressionEvents s.validator req.text (s.answer req) ++
        [.complete (s.freshRecord req (s.tries req)).layers (s.freshRecord req (s.tries req)).failedLayers
          (s.freshRecord req (s.tries req)).changed]) := by
  unfold reported lookUp keep
  rw [cacheKey?_of_not_caches h]
  dsimp only
  rw [List.append_nil]
  rfl

/-- **A run logs what it reports**, and at most the end of its outer span after that. -/
theorem run_events (s : Service) (now : τ) (req : Request) (c : Cache τ) (r : Recorder) :
    ∃ ended, (s.run now req c r).2.events = r.events ++ s.reported now req c ++ ended ∧
      (ended = [] ∨ ∃ name ok children, ended = [.spanComplete name ok children]) :=
  Recorder.call_events (s.perform_events now req c) r

end Service

end LayeredFix
