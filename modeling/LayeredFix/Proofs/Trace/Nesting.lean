import LayeredFix.Proofs.Run.Outcome
import LayeredFix.Proofs.Trace.OpenSpans
import LayeredFix.Trace.Program

/-!
# Trees of spans follow the nesting

The story of a program is what happens in its course, as it is nested: notes, spans and calls, each with what happens
inside of it. It is told without a recorder (`Step.story`); all that is carried along is whether recording is on, and
whether a span is current. The trees can be read off it: a span that begins while recording is on and a span is current
is a node, and any other leaves what is inside of it to the span around it; a call that begins while recording is on is
the root of a tree of its own.

`Step.follows` says that a recorder arrives at just these trees, although it only ever changes the spans that are open,
and `trees_follow_nesting` is the result for programs.
-/

namespace LayeredFix.Trace

/-! ### What happens -/

/-- Something that happens in the course of a program. -/
inductive Happening where
  /-- A note for the current span. -/
  | note (key : Text) (value : Json)
  /-- A span with what happens inside; it is recorded if recording is on and a span is current when it begins. -/
  | span (name : Text) (recorded : Bool) (inside : List Happening)
  /-- A call with what happens inside and what comes of it; it is recorded if recording is on when it begins. -/
  | call (name : Text) (recorded : Bool) (inside : List Happening) (outcome : Except Fault Returned)

/-- What happens in the course of steps, up to a failure. -/
structure Story where
  /-- What happens. -/
  happenings : List Happening
  /-- The failure that ends the steps. -/
  fault : Option Fault
  /-- Whether recording is on afterwards. -/
  on : Bool

/-- One story after the other. -/
def Story.andThen (first next : Story) : Story := ⟨first.happenings ++ next.happenings, next.fault, next.on⟩

/-- What comes of a call whose body ends with a failure or without. -/
def outcome (returned : Returned) : Option Fault → Except Fault Returned
  | none => .ok returned
  | some f => .error f

mutual

/-- The story of a step. `current` says whether a span is current, `noted` whether a note here goes to it, and the last
argument whether recording is on. -/
def Step.story (current noted : Bool) : Step → Bool → Story
  | .enable on, _ => ⟨[], none, on⟩
  | .note key value, on => ⟨if noted then [.note key value] else [], none, on⟩
  | .fail f, on => ⟨[], some f, on⟩
  | .span name body, on =>
    let inside := storyAll current (on && current) body on
    { inside with happenings := [.span name (on && current) inside.happenings] }
  | .call name body returned, on =>
    let inside := storyAll (on || current) true body on
    { inside with happenings := [.call name on inside.happenings (outcome returned inside.fault)] }
  | .catching body, on => { storyAll current noted body on with fault := none }

/-- The story of steps, up to a failure. -/
def storyAll (current noted : Bool) : List Step → Bool → Story
  | [], on => ⟨[], none, on⟩
  | step :: steps, on =>
    let first := step.story current noted on
    match first.fault with
    | some _ => first
    | none => first.andThen (storyAll current noted steps first.on)

end

/-! ### What is to be read off a story -/

section

variable {α : Type}

mutual

/-- What is gathered from a happening: `f` is given what is gathered inside of it. -/
def Happening.gather (f : Happening → List α → List α) : Happening → List α
  | .note key value => f (.note key value) []
  | .span name recorded inside => f (.span name recorded inside) (gatherAll f inside)
  | .call name recorded inside outcome => f (.call name recorded inside outcome) (gatherAll f inside)

/-- What is gathered from happenings, in order. -/
def gatherAll (f : Happening → List α → List α) : List Happening → List α
  | [] => []
  | h :: hs => h.gather f ++ gatherAll f hs

end

theorem gatherAll_append (f : Happening → List α → List α) (hs hs' : List Happening) :
    gatherAll f (hs ++ hs') = gatherAll f hs ++ gatherAll f hs' := by
  induction hs with
  | nil => rfl
  | cons h hs ih => rw [List.cons_append, gatherAll, gatherAll, ih, List.append_assoc]

end

/-- The notes that happenings make on the current span, in order. -/
def notesIn : List Happening → List (Text × Json) :=
  gatherAll fun
    | .note key value, _ => [(key, value)]
    | .span _ true _, _ | .call _ true _ _, _ => []
    | .span _ false _, below | .call _ false _ _, below => below

/-- The spans that happenings put into the current span, in the order in which they begin: a span that is recorded is
one node, which holds the last value of each note made on it. -/
def nodesIn : List Happening → List Span :=
  gatherAll fun
    | .span name true inside, below => [⟨name, Entries.ofList (notesIn inside), below⟩]
    | .note _ _, _ | .call _ true _ _, _ => []
    | .span _ false _, below | .call _ false _ _, below => below

/-- The tree of a span or a call with what happens inside of it. -/
def treeOf (name : Text) (inside : List Happening) : Span := ⟨name, Entries.ofList (notesIn inside), nodesIn inside⟩

/-- The spans that begin, in order, and whether each is recorded. -/
def begunIn : List Happening → List (Text × Bool) :=
  gatherAll fun
    | .span name recorded _, below => (name, recorded) :: below
    | .note _ _, below | .call _ _ _ _, below => below

/-- What calls give back, in the order in which they end: a call that is recorded adds its tree. -/
def resultsIn : List Happening → List (Text × Except Fault Returned) :=
  gatherAll fun
    | .call name true inside outcome, below => below ++ [(name, outcome.map (·.withTrace (treeOf name inside)))]
    | .call name false _ outcome, below => below ++ [(name, outcome)]
    | .note _ _, below | .span _ _ _, below => below

/-- The events of happenings, in order: each call that is recorded logs its end, whether it went well, and the number of
spans right below its root. -/
def eventsIn : List Happening → List Event :=
  gatherAll fun
    | .call name true inside outcome, below =>
      below ++ [.spanComplete name outcome.isOk (treeOf name inside).children.length]
    | .call _ false _ _, below | .note _ _, below | .span _ _ _, below => below

/-! ### The open spans -/

/-- A span after something has happened while it was current. -/
def spanAfter (hs : List Happening) (s : Span) : Span :=
  ⟨s.name, Entries.merge s.notes (notesIn hs), s.children ++ nodesIn hs⟩

/-- The open spans after something has happened: the innermost takes up what is recorded, and those around it are as
they were. -/
def pathAfter (hs : List Happening) : List Span → List Span
  | [] => []
  | s :: around => spanAfter hs s :: around

@[simp] theorem pathAfter_nil (path : List Span) : pathAfter [] path = path := by
  rcases path with _ | ⟨⟨name, notes, children⟩, around⟩
  · rfl
  · simp [pathAfter, spanAfter, notesIn, nodesIn, gatherAll, Entries.merge]

theorem pathAfter_append (hs hs' : List Happening) (path : List Span) :
    pathAfter (hs ++ hs') path = pathAfter hs' (pathAfter hs path) := by
  cases path with
  | nil => rfl
  | cons s around => simp [pathAfter, spanAfter, notesIn, nodesIn, gatherAll_append, Entries.merge]

@[simp] theorem isEmpty_pathAfter (hs : List Happening) (path : List Span) :
    (pathAfter hs path).isEmpty = path.isEmpty := by
  cases path <;> rfl

/-- What happens inside of a span or a call that has just begun makes it its tree. -/
theorem spanAfter_begin (hs : List Happening) (name : Text) : spanAfter hs (.begin name) = treeOf name hs := rfl

/-- A happening that leaves to the current span what is inside of it. -/
theorem pathAfter_transparent {h : Happening} {inside : List Happening} (path : List Span)
    (hnotes : notesIn [h] = notesIn inside) (hnodes : nodesIn [h] = nodesIn inside) :
    pathAfter [h] path = pathAfter inside path := by
  cases path with
  | nil => rfl
  | cons s around => rw [pathAfter, pathAfter, spanAfter, spanAfter, hnotes, hnodes]

/-- A note for the current span. -/
theorem path_note_eq (r : Recorder) (key : Text) (value : Json) :
    (r.note key value).path = pathAfter [.note key value] r.path := by
  cases hpath : r.path with
  | nil =>
    rw [Recorder.note, hpath]
    exact hpath
  | cons s around =>
    rw [Recorder.path_note hpath, pathAfter, spanAfter, Span.note, show nodesIn [.note key value] = [] from rfl,
      List.append_nil]
    rfl

/-! ### What is observed -/

/-- What is observed of the beginning of a span. -/
def Sighting.begun? : Sighting → Option (Text × Bool)
  | .began name active _ _ => some (name, active)
  | _ => none

/-- What is observed of the end of a call. -/
def Sighting.result? : Sighting → Option (Text × Except Fault Returned)
  | .left name result _ => some (name, result)
  | _ => none

/-- A course and the recorder after it are as a story says, if `r` was the recorder before. -/
structure Follows (story : Story) (r : Recorder) (done : Course × Recorder) : Prop where
  /-- The same spans begin, and the same of them are recorded. -/
  begun : done.1.1.filterMap Sighting.begun? = begunIn story.happenings
  /-- The same calls end, and give back the same. -/
  results : done.1.1.filterMap Sighting.result? = resultsIn story.happenings
  /-- The same failure ends the steps. -/
  fault : done.1.2 = story.fault
  /-- Recording is on or off. -/
  enabled : done.2.enabled = story.on
  /-- The current span has taken up what was recorded. -/
  path : done.2.path = pathAfter story.happenings r.path
  /-- The same events have been logged. -/
  events : done.2.events = r.events ++ eventsIn story.happenings

/-- Steps that end without a failure, and the steps after them. -/
theorem Follows.andThen {first next : Story} {r r' r'' : Recorder} {sightings more : List Sighting} {fault : Option Fault}
    (h : Follows first r ((sightings, none), r')) (h' : Follows next r' ((more, fault), r'')) :
    Follows (first.andThen next) r ((sightings ++ more, fault), r'') where
  begun := by
    rw [List.filterMap_append, h.begun, h'.begun]
    exact (gatherAll_append _ _ _).symm
  results := by
    rw [List.filterMap_append, h.results, h'.results]
    exact (gatherAll_append _ _ _).symm
  fault := h'.fault
  enabled := h'.enabled
  path := by
    rw [h'.path, h.path]
    exact (pathAfter_append _ _ _).symm
  events := by
    rw [h'.events, h.events, List.append_assoc]
    exact congrArg (r.events ++ ·) (gatherAll_append _ _ _).symm

/-- A span that is recorded is a node in the span around it. -/
theorem Follows.spanRecorded {inside : Story} {r : Recorder} {name : Text} {s : Span} {around : List Span}
    {done : Course × Recorder} {seen : Sighting} (hpath : r.path = s :: around) (h : Follows inside (r.push name) done)
    (hseen : seen.begun? = some (name, true)) (hquiet : seen.result? = none) :
    Follows { inside with happenings := [.span name true inside.happenings] } r
      ((seen :: done.1.1, done.1.2), done.2.close) where
  begun := by
    rw [List.filterMap_cons_some hseen, h.begun]
    exact (List.append_nil _).symm
  results := by
    rw [List.filterMap_cons_none hquiet, h.results]
    exact (List.append_nil _).symm
  fault := h.fault
  enabled := by rw [Recorder.enabled_close, h.enabled]
  path := by
    have hinside := h.path
    rw [Recorder.path_push, hpath, pathAfter, spanAfter_begin] at hinside
    rw [Recorder.path_close hinside, hpath]
    rfl
  events := by
    rw [Recorder.events_close, h.events]
    exact congrArg (r.events ++ ·) (List.append_nil _).symm

/-- A span that is not recorded leaves everything inside of it to the span around it. -/
theorem Follows.spanUnrecorded {inside : Story} {r : Recorder} {name : Text} {done : Course × Recorder} {seen : Sighting}
    (h : Follows inside r done) (hseen : seen.begun? = some (name, false)) (hquiet : seen.result? = none) :
    Follows { inside with happenings := [.span name false inside.happenings] } r
      ((seen :: done.1.1, done.1.2), done.2) where
  begun := by
    rw [List.filterMap_cons_some hseen, h.begun]
    exact (List.append_nil _).symm
  results := by
    rw [List.filterMap_cons_none hquiet, h.results]
    exact (List.append_nil _).symm
  fault := h.fault
  enabled := h.enabled
  path := h.path.trans (pathAfter_transparent r.path (List.append_nil _) (List.append_nil _)).symm
  events := by
    rw [h.events]
    exact congrArg (r.events ++ ·) (List.append_nil _).symm

/-- A call that is recorded is the root of a tree of its own, which its result gets, and logs its end. -/
theorem Follows.callRecorded {inside : Story} {r : Recorder} {name : Text} {done : Course × Recorder} {seen : Sighting}
    (h : Follows inside (r.push name) done) (hseen : seen.begun? = none) (hquiet : seen.result? = none)
    (returned : Returned) (current : Option Text) :
    Follows { inside with happenings := [.call name true inside.happenings (outcome returned inside.fault)] } r
      ((seen :: done.1.1 ++ [.left name ((outcome returned inside.fault).map
          (·.withTrace (treeOf name inside.happenings))) current], inside.fault),
        ({ done.2 with path := r.path }).log
          [.spanComplete name (outcome returned inside.fault).isOk (treeOf name inside.happenings).children.length]) where
  begun := by
    rw [List.filterMap_append, List.filterMap_cons_none hseen, h.begun]
    rfl
  results := by
    rw [List.filterMap_append, List.filterMap_cons_none hquiet, h.results]
    exact (List.append_nil _).symm
  fault := rfl
  enabled := h.enabled
  path := by
    rw [pathAfter_transparent r.path (show notesIn _ = notesIn [] from rfl) rfl, pathAfter_nil]
    rfl
  events := by
    rw [Recorder.events_log]
    dsimp only
    rw [h.events, Recorder.events_push, List.append_assoc]
    exact congrArg (r.events ++ ·) (List.append_nil _).symm

/-- A call that is not recorded leaves everything inside of it to the span around it, and its result as it is. -/
theorem Follows.callUnrecorded {inside : Story} {r : Recorder} {done : Course × Recorder} {seen : Sighting}
    (h : Follows inside r done) (hseen : seen.begun? = none) (hquiet : seen.result? = none) (name : Text)
    (returned : Returned) (current : Option Text) :
    Follows { inside with happenings := [.call name false inside.happenings (outcome returned inside.fault)] } r
      ((seen :: done.1.1 ++ [.left name (outcome returned inside.fault) current], inside.fault), done.2) where
  begun := by
    rw [List.filterMap_append, List.filterMap_cons_none hseen, h.begun]
    rfl
  results := by
    rw [List.filterMap_append, List.filterMap_cons_none hquiet, h.results]
    exact (List.append_nil _).symm
  fault := rfl
  enabled := h.enabled
  path := h.path.trans (pathAfter_transparent r.path (List.append_nil _) (List.append_nil _)).symm
  events := by
    rw [h.events]
    exact congrArg (r.events ++ ·) (List.append_nil _).symm

/-! ### Programs -/

/-- The story of a step that is run on a recorder. -/
def Step.storyOn (noted : Bool) (step : Step) (r : Recorder) : Story := step.story (!r.path.isEmpty) noted r.enabled

/-- The story of steps that are run on a recorder. -/
def storyOn (noted : Bool) (steps : List Step) (r : Recorder) : Story :=
  storyAll (!r.path.isEmpty) noted steps r.enabled

/-- A call whose root is current again at its end: the result gets the tree if the call has not failed, the root is
taken away, and the end is logged. -/
theorem call_of_follows {inside : Story} {r : Recorder} {name : Text} (hon : r.enabled = true)
    {work : Recorder → (List Sighting × Except Fault Returned) × Recorder} {done : Course × Recorder}
    {seen : Sighting} {returned : Returned} (hfollows : Follows inside (r.push name) done)
    (hwork : work (r.push name) = ((seen :: done.1.1, outcome returned done.1.2), done.2)) :
    r.call name fails giveTrace work =
      ((seen :: done.1.1, (outcome returned inside.fault).map (·.withTrace (treeOf name inside.happenings))),
        ({ done.2 with path := r.path }).log
          [.spanComplete name (outcome returned inside.fault).isOk (treeOf name inside.happenings).children.length]) := by
  have hpath : done.2.path = treeOf name inside.happenings :: r.path := hfollows.path
  unfold Recorder.call
  rw [if_pos hon, hwork, hfollows.fault]
  dsimp only
  rw [hpath]
  dsimp only
  cases inside.fault with
  | none => rfl
  | some f => rfl

mutual

/-- **A step does to a recorder what its story says.** -/
theorem Step.follows (noted : Bool) : ∀ (step : Step) (r : Recorder), Follows (step.storyOn noted r) r (step.run noted r)
  | .enable on, r => ⟨rfl, rfl, rfl, rfl, (pathAfter_nil r.path).symm, (List.append_nil _).symm⟩
  | .note key value, r => by
    cases noted with
    | false => exact ⟨rfl, rfl, rfl, rfl, (pathAfter_nil r.path).symm, (List.append_nil _).symm⟩
    | true =>
      refine ⟨rfl, rfl, rfl, r.enabled_note key value, ?_, (r.events_note key value).trans (List.append_nil _).symm⟩
      exact path_note_eq r key value
  | .fail f, r => ⟨rfl, rfl, rfl, rfl, (pathAfter_nil r.path).symm, (List.append_nil _).symm⟩
  | .span name body, r => by
    rw [Step.run, Step.storyOn, Step.story]
    cases hrec : r.enabled && !r.path.isEmpty with
    | true =>
      have hopen : (!r.path.isEmpty) = true := (Bool.and_eq_true_iff.1 hrec).2
      have hbody := runAll_follows true body (r.push name)
      have hstory : storyOn true body (r.push name) = storyAll (!r.path.isEmpty) true body r.enabled := by
        rw [hopen]
        rfl
      rw [hstory] at hbody
      cases hpath : r.path with
      | nil => rw [hpath] at hopen; cases hopen
      | cons s around =>
        rw [Recorder.within, hrec, ← hpath]
        exact hbody.spanRecorded hpath rfl rfl
    | false =>
      have hbody := runAll_follows false body r
      rw [Recorder.within, hrec]
      exact hbody.spanUnrecorded rfl rfl
  | .call name body returned, r => by
    rw [Step.run, Step.storyOn, Step.story]
    cases hon : r.enabled with
    | true =>
      have hbody := runAll_follows true body (r.push name)
      have hstory : storyOn true body (r.push name) = storyAll (true || !r.path.isEmpty) true body true := by
        show storyAll true true body r.enabled = _
        rw [hon, Bool.true_or]
      rw [hstory] at hbody
      rw [call_of_follows hon hbody rfl]
      have hseen : (Sighting.entered name (currentName (r.push name))).begun? = none := rfl
      have h := hbody.callRecorded hseen rfl returned (currentName r)
      generalize storyAll (true || !r.path.isEmpty) true body true = inside at h ⊢
      obtain ⟨happenings, _ | f, on⟩ := inside
      · exact h
      · exact h
    | false =>
      have hbody := runAll_follows true body r
      have hstory : storyOn true body r = storyAll (false || !r.path.isEmpty) true body false := by
        rw [storyOn, hon, Bool.false_or]
      rw [hstory] at hbody
      rw [Recorder.call, if_neg (by simp [hon])]
      have hseen : (Sighting.entered name (currentName r)).begun? = none := rfl
      have h := hbody.callUnrecorded hseen rfl name returned (currentName (runAll true body r).2)
      generalize storyAll (false || !r.path.isEmpty) true body false = inside at hbody h ⊢
      generalize runAll true body r = done at hbody h ⊢
      obtain ⟨happenings, fault, on⟩ := inside
      obtain ⟨⟨sightings, fault'⟩, r'⟩ := done
      obtain rfl : fault' = fault := hbody.fault
      cases fault' with
      | none => exact h
      | some f => exact h
  | .catching body, r => by
    have h := runAll_follows noted body r
    exact ⟨h.begun, h.results, rfl, h.enabled, h.path, h.events⟩

theorem runAll_follows (noted : Bool) : ∀ (steps : List Step) (r : Recorder),
    Follows (storyOn noted steps r) r (runAll noted steps r)
  | [], r => ⟨rfl, rfl, rfl, rfl, (pathAfter_nil r.path).symm, (List.append_nil _).symm⟩
  | step :: steps, r => by
    have hstep := Step.follows noted step r
    rw [runAll, storyOn, storyAll]
    generalize step.run noted r = done at hstep ⊢
    obtain ⟨⟨sightings, fault⟩, r'⟩ := done
    have hfault : fault = _ := hstep.fault
    have henabled : r'.enabled = _ := hstep.enabled
    have hpath : r'.path = _ := hstep.path
    unfold Step.storyOn at *
    cases fault with
    | some f =>
      rw [← hfault]
      exact hstep
    | none =>
      have hsteps := runAll_follows noted steps r'
      rw [storyOn, henabled, hpath, isEmpty_pathAfter] at hsteps
      rw [← hfault]
      exact hstep.andThen hsteps

end

/-- A span or a call holds the last value of each note made on it. -/
theorem get?_notes_treeOf (name : Text) (inside : List Happening) (key : Text) :
    Entries.get? key (treeOf name inside).notes = Entries.get? key (notesIn inside).reverse := by
  rw [treeOf, Entries.ofList, Entries.get?_merge, Entries.get?, Option.or_none]

/-- The record of a run gets its tree under a key of its own, and keeps everything else. -/
theorem withTrace_spec (root : Span) (record : RunRecord) :
    ∃ extra, record.withTrace root = { record with extra := some extra } ∧
      ∀ key, Entries.get? key extra =
        if key = RunRecord.traceKey then some root.toJson else Entries.get? key (record.extra.getD []) :=
  ⟨_, rfl, fun key => Entries.get?_put RunRecord.traceKey key root.toJson (record.extra.getD [])⟩

/-- **The trees follow the nesting.** Whatever a program does, the recorder and what is observed are as its story says:
every span that begins while recording is on and a span is current is one node of the span that is current then, in the
order in which they begin, and other spans add none; every call that begins while recording is on has a tree of its own,
gives it to its result and logs its end once; every other call leaves things as they are. A node holds the last value of
each note made on it, and the record of a run gets its tree under one key and keeps everything else. -/
theorem trees_follow_nesting (noted : Bool) (steps : List Step) (r : Recorder) :
    Follows (storyOn noted steps r) r (runAll noted steps r) ∧
      (∀ name inside key,
        Entries.get? key (treeOf name inside).notes = Entries.get? key (notesIn inside).reverse) ∧
      ∀ (root : Span) (record : RunRecord), ∃ extra, record.withTrace root = { record with extra := some extra } ∧
        ∀ key, Entries.get? key extra =
          if key = RunRecord.traceKey then some root.toJson else Entries.get? key (record.extra.getD []) :=
  ⟨runAll_follows noted steps r, get?_notes_treeOf, withTrace_spec⟩

example : nodesIn (storyAll true true [.span ['a'] [.span ['b'] [], .enable false, .span ['c'] []], .span ['d'] [],
    .enable true, .call ['e'] [.span ['f'] []] (.value .null), .span ['g'] [.note ['k'] .null, .fail (.issues [])],
    .span ['h'] []] true).happenings =
      [⟨['a'], [], [⟨['b'], [], []⟩]⟩, ⟨['g'], [(['k'], .null)], []⟩] := rfl

end LayeredFix.Trace
