import LayeredFix.Layer.Registry
import LayeredFix.Run.Attempt
import LayeredFix.Run.Cache
import LayeredFix.Run.CacheKey
import LayeredFix.Run.Request
import LayeredFix.Settings.Sections
import LayeredFix.Trace.Recorder

/-!
# The service that runs layers

A service runs the layers of a registry over a text, one after the other in the order of the registry, each
on what the one before it left. It keeps outputs in a cache, reports what happens as events, and records a
span for each layer when recording is on.

`Service.run` is one run. `Service.attempts` is the part of it that only computes.
-/

namespace LayeredFix

/-- A service. -/
structure Service where
  /-- The layers. -/
  registry : Registry
  /-- The validator behind the checks. -/
  validator : Validator := .standard
  /-- The layers that run when none are asked for. -/
  defaultLayers : List Int := [1, 2, 3, 4]
  /-- The time, in milliseconds, above which a layer is slow. -/
  slowLimit : Number := .real (.ofInt 10000)
  /-- Whether outputs are kept at all. -/
  cacheEnabled : Bool := true

namespace Service

/-- The service that follows from settings. -/
def ofSettings (p : PipelineSettings) (v : ValidatorSettings) (registry : Registry) : Service where
  registry := registry
  validator := .ofLimits { maxLines := v.maxLines, maxComplexityIncrease := v.maxComplexityIncrease }
  defaultLayers := p.defaultLayers
  slowLimit := .real p.slowLayerMs
  cacheEnabled := p.useCache

/-- The terms of a run. -/
def terms (s : Service) (req : Request) : Terms := ⟨s.validator, s.slowLimit, req.revertOnRisk⟩

/-- The layers that a request selects. -/
def plan (s : Service) (req : Request) : List Layer :=
  s.registry.select (req.layers.getD s.defaultLayers)

/-- Tries layers one after the other, each on the text that the one before it left. -/
def attempts (terms : Terms) : List Layer → Text → List Attempt
  | [], _ => []
  | layer :: rest, t =>
    let a := Attempt.make terms layer t
    a :: attempts terms rest a.after

/-- The text after the last attempt. -/
def finalText (t : Text) (as : List Attempt) : Text := (as.getLast?.map Attempt.after).getD t

/-- The name of a layer's span. -/
def spanName (layer : Layer) : Text := "layer_".toList ++ Text.ofInt layer.id

/-- Notes an attempt on its span: whether it stands and, if the pass did not fail, how many lines it
changed. -/
def noteAttempt (a : Attempt) (r : Recorder) : Recorder :=
  let r := r.note "success".toList (.bool a.result.success)
  if a.raised then r else r.note "change_count".toList (.int a.result.changeCount)

/-- Tries a layer within a span of its own. -/
def tryLayer (terms : Terms) (layer : Layer) (t : Text) (r : Recorder) : Attempt × Recorder :=
  r.within (spanName layer) fun active r =>
    let a := Attempt.make terms layer t
    let r := r.log a.events
    (a, if active then noteAttempt a r else r)

/-- Tries layers one after the other, each within a span of its own. -/
def tryLayers (terms : Terms) : List Layer → Text → Recorder → List Attempt × Recorder
  | [], _, r => ([], r)
  | layer :: rest, t, r =>
    let (a, r) := tryLayer terms layer t r
    let (as, r) := tryLayers terms rest a.after r
    (a :: as, r)

/-- The event of a result with more errors than the input. -/
def regressionEvents (v : Validator) (before after : Text) : List Event :=
  if before == after then []
  else
    let first := v.report before
    let last := v.report after
    if !last.valid && first.errors.length < last.errors.length then
      [.moreErrors first.errors.length last.errors.length]
    else []

/-- The variant of a run: runs that take changes back are kept apart in the cache. -/
def variant (req : Request) : Text := if req.revertOnRisk then "revert".toList else []

/-- The key of a run in the cache, if the cache is used. -/
def cacheKey? (s : Service) (req : Request) : Option Text :=
  if req.useCache && s.cacheEnabled then
    some (CacheKey.key (variant req) ((s.plan req).map Layer.id) req.text)
  else none

/-- The record of a run that the cache answers. -/
def hitRecord (s : Service) (req : Request) (output : Text) : RunRecord where
  input := req.text
  layers := (s.plan req).map Layer.id
  output := output
  results := []
  outputs := [req.text, output]
  cacheHit := true
  extra := none

/-- The record of a run that the cache does not answer. -/
def freshRecord (s : Service) (req : Request) (as : List Attempt) : RunRecord where
  input := req.text
  layers := (s.plan req).map Layer.id
  output := finalText req.text as
  results := as.map Attempt.result
  outputs := req.text :: as.map Attempt.after
  cacheHit := false
  extra := none

variable {τ : Type} [Sub τ] [LT τ] [DecidableLT τ]

/-- What the cache holds for a run, and the cache after the read. -/
def lookUp (s : Service) (now : τ) (req : Request) (c : Cache τ) : Option Text × Cache τ :=
  match s.cacheKey? req with
  | none => (none, c)
  | some key => c.get now key

/-- The cache after the output of a run was put in, and the events of that. -/
def keep (s : Service) (now : τ) (req : Request) (output : Text) (c : Cache τ) :
    List Event × Cache τ :=
  match s.cacheKey? req with
  | none => ([], c)
  | some key =>
    let (dropped, c) := c.set now key output
    (Cache.sweepEvents dropped, c)

/-- A run without its outer span. -/
def perform (s : Service) (now : τ) (req : Request) (c : Cache τ) (r : Recorder) :
    (RunRecord × Cache τ) × Recorder :=
  match s.lookUp now req c with
  | (some output, c) =>
    let record := s.hitRecord req output
    ((record, c), r.log [.cacheHit record.layers])
  | (none, c) =>
    let (as, r) := tryLayers (s.terms req) (s.plan req) req.text r
    let record := s.freshRecord req as
    let (swept, c) := s.keep now req record.output c
    ((record, c), r.log (regressionEvents s.validator req.text record.output ++ swept ++
      [.complete record.layers record.failedLayers record.changed]))

/-- The name of the outer span of a run. -/
def rootName : Text := "PipelineService.run".toList

/-- One run: its record and the cache after it, and what was recorded. -/
def run (s : Service) (now : τ) (req : Request) (c : Cache τ) (r : Recorder) :
    (RunRecord × Cache τ) × Recorder :=
  r.call rootName (fun _ => false) (fun root a => (a.1.withTrace root, a.2)) (s.perform now req c)

/-- A run whose layers are asked for by any value. -/
def runAny (s : Service) (now : τ) (layers : Json) (req : Request) (c : Cache τ) (r : Recorder) :
    (Except Failure RunRecord × Cache τ) × Recorder :=
  match Request.layersOf layers with
  | .ok wanted =>
    let ((record, c), r) := s.run now { req with layers := wanted } c r
    ((.ok record, c), r)
  | .error f => r.call rootName (fun _ => true) (fun _ a => a) fun r => ((.error f, c), r)

end Service

/-! ### Histories -/

/-- A service with its cache and a clock. -/
structure Session (τ : Type) where
  /-- The service. -/
  service : Service
  /-- The cache. -/
  cache : Cache τ
  /-- The time. -/
  now : τ

/-- A step in the history of a service. -/
inductive SessionStep (τ : Type) where
  /-- A run, with recording on or off. -/
  | run (req : Request) (record : Bool)
  /-- Time passes. -/
  | advance (amount : τ)
  /-- Expired entries are dropped from the cache, as of now or as of a given time. -/
  | sweep (time : Option τ)
  /-- The cache is emptied. -/
  | clear

/-- One step: the record and the events of a run, and the session after it. -/
def Session.step {τ : Type} [Add τ] [Sub τ] [LT τ] [DecidableLT τ] (s : Session τ) :
    SessionStep τ → Option (RunRecord × List Event) × Session τ
  | .run req record =>
    let ((r, c), recorder) := s.service.run s.now req s.cache (.idle record)
    (some (r, recorder.events), { s with cache := c })
  | .advance d => (none, { s with now := s.now + d })
  | .sweep time => (none, { s with cache := (s.cache.sweep (time.getD s.now)).2 })
  | .clear => (none, { s with cache := s.cache.clear })

end LayeredFix
