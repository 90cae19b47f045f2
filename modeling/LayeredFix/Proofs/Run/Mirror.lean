import LayeredFix.Proofs.Run.Attempts
import LayeredFix.Proofs.Run.Outcome
import LayeredFix.Proofs.Trace.OpenSpans

/-!
# The tree of a run mirrors it

Recording never changes a run: the record is the same but for the tree that recording adds, and so is the cache after it
(`run_mirrored`). The tree is a root with a span for each result, in order, which notes whether the change stands and,
unless the pass failed, how many lines it touched. What carries this is what an attempt does to the open spans: nothing
but put one finished span into the innermost (`tryLayer_path`).
-/

namespace LayeredFix

namespace Service

/-! ### The spans of the attempts -/

/-- The span of an attempt of a layer. -/
def attemptSpan (layer : Layer) (a : Attempt) : Span where
  name := spanName layer
  notes := ("success".toList, .bool a.result.success) ::
    if a.raised then [] else [("change_count".toList, .int a.result.changeCount)]
  children := []

theorem noteAttempt_path {a : Attempt} {r : Recorder} {layer : Layer} {rest : List Span}
    (h : r.path = .begin (spanName layer) :: rest) : (noteAttempt a r).path = attemptSpan layer a :: rest := by
  unfold noteAttempt attemptSpan
  cases a.raised with
  | true => exact Recorder.path_note h
  | false => exact Recorder.path_note (Recorder.path_note h)

@[simp] theorem enabled_noteAttempt (a : Attempt) (r : Recorder) : (noteAttempt a r).enabled = r.enabled := by
  unfold noteAttempt
  split <;> simp

/-- An attempt leaves the open spans as they were, but for its own span in the innermost. -/
theorem tryLayer_path (terms : Terms) (layer : Layer) (t : Text) {r : Recorder} {s : Span} {rest : List Span}
    (hon : r.enabled = true) (h : r.path = s :: rest) :
    (tryLayer terms layer t r).2.path = s.adopt (attemptSpan layer (Attempt.make terms layer t)) :: rest :=
  Recorder.within_path hon h (noteAttempt_path (by simp [h]))

@[simp] theorem tryLayer_enabled (terms : Terms) (layer : Layer) (t : Text) (r : Recorder) :
    (tryLayer terms layer t r).2.enabled = r.enabled := by
  refine Recorder.within_enabled (fun active r => ?_) r
  cases active <;> simp

/-- The spans of the attempts come one after the other. -/
theorem tryLayers_path (terms : Terms) (layers : List Layer) (t : Text) {r : Recorder} {s : Span} {rest : List Span}
    (hon : r.enabled = true) (h : r.path = s :: rest) :
    (tryLayers terms layers t r).2.path =
      s.adoptAll (List.zipWith attemptSpan layers (attempts terms layers t)) :: rest := by
  induction layers generalizing t r s with
  | nil =>
    rw [attempts, List.zipWith_nil_right, Span.adoptAll_nil]
    exact h
  | cons layer rest' ih =>
    simp only [tryLayers, attempts, tryLayer_fst]
    rw [ih _ (by simpa using hon) (tryLayer_path terms layer t hon h), Span.adoptAll_adopt, List.zipWith_cons_cons]

variable {τ : Type} [Sub τ] [LT τ] [DecidableLT τ]

/-- The spans of a run: one for each attempt, and none if the cache gives the answer. -/
def runSpans (s : Service) (now : τ) (req : Request) (c : Cache τ) : List Span :=
  match (s.lookUp now req c).1 with
  | some _ => []
  | none => List.zipWith attemptSpan (s.plan req) (s.tries req)

theorem perform_path (s : Service) (now : τ) (req : Request) (c : Cache τ) {r : Recorder} {root : Span}
    {rest : List Span} (hon : r.enabled = true) (h : r.path = root :: rest) :
    (s.perform now req c r).2.path = root.adoptAll (s.runSpans now req c) :: rest := by
  unfold perform runSpans
  rcases s.lookUp now req c with ⟨_ | output, c'⟩
  · exact tryLayers_path _ _ _ hon h
  · dsimp only
    rw [Span.adoptAll_nil]
    exact h

/-- The tree of a run. -/
def runTree (s : Service) (now : τ) (req : Request) (c : Cache τ) : Span :=
  (Span.begin rootName).adoptAll (s.runSpans now req c)

/-- A run that is recorded gives its outcome with its tree. -/
theorem run_of_enabled (s : Service) (now : τ) (req : Request) (c : Cache τ) {r : Recorder} (hon : r.enabled = true) :
    (s.run now req c r).1 = ((s.outcome now req c).1.withTrace (s.runTree now req c), (s.outcome now req c).2) :=
  Recorder.call_of_path hon (s.perform_fst now req c _) rfl (s.perform_path now req c hon (r.path_push rootName))

/-- A run that is not recorded gives its outcome. -/
theorem run_of_disabled (s : Service) (now : τ) (req : Request) (c : Cache τ) {r : Recorder} (hoff : r.enabled = false) :
    (s.run now req c r).1 = s.outcome now req c := by
  unfold run Recorder.call
  rw [if_neg (by simp [hoff])]
  exact s.perform_fst now req c r

theorem extra_outcome (s : Service) (now : τ) (req : Request) (c : Cache τ) : (s.outcome now req c).1.extra = none := by
  unfold outcome
  rcases s.lookUp now req c with ⟨_ | output, c'⟩ <;> rfl

end Service

/-! ### What the tree shows -/

/-- What a span shows of the result of a layer that was tried on a text: whether the change stands, and just if the
pass did not fail, how many lines it touched. -/
structure Span.Shows (child : Span) (x : LayerResult) (layer : Layer) (before : Text) : Prop where
  name : child.name = "layer_".toList ++ Text.ofInt x.id
  children : child.children = []
  notes : child.notes = ("success".toList, .bool x.success) ::
    match layer.transform before with
    | .ok _ => [("change_count".toList, .int x.changeCount)]
    | .error _ => []

/-- What the tree of a run shows of its record: a span for each result, in order. -/
structure Span.Mirrors (root : Span) (registry : Registry) (record : RunRecord) : Prop where
  name : root.name = "PipelineService.run".toList
  notes : root.notes = []
  length : root.children.length = record.results.length
  children : ∀ (i : Nat) (child : Span) (x : LayerResult), root.children[i]? = some child → record.results[i]? = some x →
    ∃ layer ∈ registry.layers, ∃ before, layer.id = x.id ∧ record.outputs[i]? = some before ∧
      child.Shows x layer before

namespace Service

/-- The span of an attempt shows its result. -/
theorem attemptSpan_shows (terms : Terms) (layer : Layer) (t : Text) :
    (attemptSpan layer (Attempt.make terms layer t)).Shows (Attempt.make terms layer t).result layer t := by
  refine ⟨?_, rfl, ?_⟩
  · rw [Attempt.make_id]
    rfl
  · unfold attemptSpan
    rcases Attempt.make_cases terms layer t with ⟨f, ht, hm⟩ | ⟨after, d, ht, -, -, hm⟩ | ⟨after, es, ht, -, -, hm⟩ <;>
      rw [hm, ht] <;> rfl

variable {τ : Type} [Sub τ] [LT τ] [DecidableLT τ]

/-- The tree of a run mirrors its outcome. -/
theorem runTree_mirrors (s : Service) (now : τ) (req : Request) (c : Cache τ) :
    (s.runTree now req c).Mirrors s.registry (s.outcome now req c).1 := by
  unfold runTree runSpans outcome
  rcases s.lookUp now req c with ⟨_ | output, c'⟩
  · refine ⟨rfl, rfl, ?_, fun i child x hchild hx => ?_⟩
    · simp [Span.adoptAll, Span.begin, freshRecord, tries, attempts_length]
    · obtain ⟨a, ha, rfl⟩ : ∃ a, (s.tries req)[i]? = some a ∧ a.result = x := by
        simpa [freshRecord] using hx
      obtain ⟨layer, before, hlayer, hbefore, rfl⟩ := attempts_at _ ha
      have hzip : (List.zipWith attemptSpan (s.plan req) (s.tries req))[i]? = some child := by
        simpa [Span.adoptAll, Span.begin] using hchild
      rw [List.getElem?_zipWith, hlayer, ha] at hzip
      obtain rfl := Option.some.inj hzip
      exact ⟨layer, (List.mem_filter.1 (List.mem_of_getElem? hlayer)).1, before, (Attempt.make_id ..).symm, hbefore,
        attemptSpan_shows _ _ _⟩
  · refine ⟨rfl, rfl, rfl, fun i child x hchild => ?_⟩
    cases hchild

end Service

variable {τ : Type} [Sub τ] [LT τ] [DecidableLT τ]

/-- **Recording never changes a run and mirrors it.** A run that is recorded gives the record of the same run without
recording, with a tree added, and leaves the same cache; without recording nothing is added. The tree shows the results,
one span for each, in order. -/
theorem run_mirrored (s : Service) (now : τ) (req : Request) (c : Cache τ) (r : Recorder) :
    let recorded := (s.run now req c (r.enable true)).1
    let plain := (s.run now req c (r.enable false)).1
    recorded.2 = plain.2 ∧ plain.1.extra = none ∧
      ∃ root : Span, root.Mirrors s.registry plain.1 ∧
        recorded.1 = { plain.1 with extra := some [(RunRecord.traceKey, root.toJson)] } := by
  intro recorded plain
  have hrecorded : recorded = _ := s.run_of_enabled now req c rfl
  have hplain : plain = s.outcome now req c := s.run_of_disabled now req c rfl
  have hextra := s.extra_outcome now req c
  rw [hrecorded, hplain]
  refine ⟨rfl, hextra, s.runTree now req c, s.runTree_mirrors now req c, ?_⟩
  unfold RunRecord.withTrace
  rw [hextra]
  rfl

end LayeredFix
