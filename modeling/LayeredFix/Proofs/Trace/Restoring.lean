import LayeredFix.Proofs.Entries
import LayeredFix.Proofs.Trace.OpenSpans
import LayeredFix.Trace.Program

/-!
# The current span is restored

Whatever happens inside a span or a call, recording turned on or off, failures passing through, further spans and calls
to any depth, at its end the current span is the one that was current when it began (`spans_restored`). A span is a value
here, and the open spans are kept in a row: the current span is the same if the row is the same, but for what was noted
on the innermost and put into it (`SameSpans`). A span that is recorded puts its own span into the one around it, a span
that is not recorded opens none, and a call takes its root away again; so each keeps the row if the work in it does, and
the result for programs follows by induction over their steps (`Step.run_same`).
-/

namespace LayeredFix

/-! ### The same spans -/

/-- The same span later on: nothing of it is lost, but notes and spans within may have been added. -/
structure Span.Continues (s s' : Span) : Prop where
  name : s'.name = s.name
  children : s.children <+: s'.children
  notes : ∀ key, Entries.has key s.notes = true → Entries.has key s'.notes = true

/-- The same spans are open, in the same order; only the innermost may have gone on. -/
inductive SameSpans : List Span → List Span → Prop where
  /-- No span is open. -/
  | none : SameSpans [] []
  /-- The innermost span has gone on, and those around it are as they were. -/
  | some {s s' : Span} (around : List Span) (h : s.Continues s') : SameSpans (s :: around) (s' :: around)

theorem Span.Continues.refl (s : Span) : s.Continues s := ⟨rfl, List.prefix_refl _, fun _ => id⟩

theorem Span.Continues.trans {s s' s'' : Span} (h : s.Continues s') (h' : s'.Continues s'') : s.Continues s'' :=
  ⟨h'.name.trans h.name, h.children.trans h'.children, fun key hk => h'.notes key (h.notes key hk)⟩

theorem Span.continues_note (s : Span) (key : Text) (value : Json) : s.Continues (s.note key value) :=
  ⟨rfl, List.prefix_refl _, fun _ => Entries.has_put⟩

theorem Span.continues_adopt (s child : Span) : s.Continues (s.adopt child) :=
  ⟨rfl, List.prefix_append _ _, fun _ => id⟩

theorem SameSpans.refl (path : List Span) : SameSpans path path := by
  cases path with
  | nil => exact .none
  | cons s around => exact .some around (.refl s)

theorem SameSpans.trans {path path' path'' : List Span} (h : SameSpans path path') (h' : SameSpans path' path'') :
    SameSpans path path'' := by
  cases h with
  | none => exact h'
  | some around h =>
    cases h' with
    | some _ h' => exact .some around (h.trans h')

namespace Recorder

variable {α : Type} {name : Text} {r : Recorder}

theorem note_same (key : Text) (value : Json) (r : Recorder) : SameSpans r.path (r.note key value).path := by
  rcases h : r.path with _ | ⟨s, around⟩
  · unfold note
    rw [h]
    dsimp only
    rw [h]
    exact .none
  · rw [path_note h]
    exact .some around (s.continues_note key value)

/-- A span keeps the open spans if the work in it does. -/
theorem within_same {work : Bool → Recorder → α × Recorder}
    (h : ∀ active r, SameSpans r.path (work active r).2.path) : SameSpans r.path (r.within name work).2.path := by
  unfold within
  split
  · rename_i hactive
    rw [Bool.and_eq_true, Bool.not_eq_true', List.isEmpty_eq_false_iff] at hactive
    obtain ⟨s, around, hpath⟩ := List.exists_cons_of_ne_nil hactive.2
    have hwork := h true (r.push name)
    rw [path_push, hpath] at hwork
    generalize hafter : (work true (r.push name)).2.path = after at hwork
    cases hwork with
    | some _ hchild =>
      rw [hpath]
      show SameSpans (s :: around) (work true (r.push name)).2.close.path
      rw [path_close hafter]
      exact .some around (s.continues_adopt _)
  · exact h false r

/-- A call keeps the open spans if the work in it does. -/
theorem call_same {fails : α → Bool} {give : Span → α → α} {work : Recorder → α × Recorder}
    (h : ∀ r, SameSpans r.path (work r).2.path) : SameSpans r.path (r.call name fails give work).2.path := by
  unfold call
  split
  · have hwork := h (r.push name)
    rw [path_push] at hwork
    generalize work (r.push name) = done at hwork
    obtain ⟨a, r'⟩ := done
    generalize hafter : r'.path = after at hwork
    cases hwork with
    | some _ hroot =>
      -- The root is taken away, and the spans around it have not been touched.
      dsimp only
      rw [hafter]
      dsimp only
      split <;> exact .refl r.path
  · exact h r

end Recorder

namespace Trace

/-! ### Programs -/

mutual

/-- **A step keeps the open spans**, whether it ends with a failure or not. -/
theorem Step.run_same (noted : Bool) : ∀ (step : Step) (r : Recorder), SameSpans r.path (step.run noted r).2.path
  | .enable on, r => .refl r.path
  | .note key value, r => by
    rw [Step.run]
    cases noted with
    | true => exact r.note_same key value
    | false => exact .refl r.path
  | .fail f, r => .refl r.path
  | .span name body, r => by
    rw [Step.run]
    exact Recorder.within_same fun active r => runAll_same active body r
  | .call name body returned, r => by
    rw [Step.run]
    exact Recorder.call_same fun r => runAll_same true body r
  | .catching body, r => by
    rw [Step.run]
    exact runAll_same noted body r

/-- Steps keep the open spans. -/
theorem runAll_same (noted : Bool) : ∀ (steps : List Step) (r : Recorder), SameSpans r.path (runAll noted steps r).2.path
  | [], r => .refl r.path
  | step :: steps, r => by
    have hstep := Step.run_same noted step r
    rw [runAll]
    generalize step.run noted r = done at hstep ⊢
    obtain ⟨⟨sightings, _ | f⟩, r'⟩ := done
    · exact hstep.trans (runAll_same noted steps r')
    · exact hstep

end

/-! ### Every span and every call -/

/-- A span or a call in the course of a program: the recorder at its beginning and at its end. -/
structure Passage where
  /-- When it began. -/
  entry : Recorder
  /-- When it ended, with a failure or without. -/
  exit : Recorder

mutual

/-- The spans and calls that a step goes through, with those inside first. -/
def Step.passages (noted : Bool) : Step → Recorder → List Passage
  | .span name body, r =>
    let active := r.enabled && !r.path.isEmpty
    passagesAll active body (if active then r.push name else r) ++ [⟨r, ((Step.span name body).run noted r).2⟩]
  | .call name body returned, r =>
    passagesAll true body (if r.enabled then r.push name else r) ++ [⟨r, ((Step.call name body returned).run noted r).2⟩]
  | .catching body, r => passagesAll noted body r
  | .enable _, _ | .note _ _, _ | .fail _, _ => []

/-- The spans and calls that steps go through, up to a failure. -/
def passagesAll (noted : Bool) : List Step → Recorder → List Passage
  | [], _ => []
  | step :: steps, r =>
    step.passages noted r ++
      match step.run noted r with
      | ((_, some _), _) => []
      | ((_, none), r) => passagesAll noted steps r

end

mutual

theorem Step.passages_same (noted : Bool) : ∀ (step : Step) (r : Recorder),
    ∀ p ∈ step.passages noted r, SameSpans p.entry.path p.exit.path
  | .span name body, r => by
    rw [Step.passages, List.forall_mem_append, List.forall_mem_singleton]
    exact ⟨passagesAll_same _ body _, Step.run_same noted _ r⟩
  | .call name body returned, r => by
    rw [Step.passages, List.forall_mem_append, List.forall_mem_singleton]
    exact ⟨passagesAll_same true body _, Step.run_same noted _ r⟩
  | .catching body, r => by
    rw [Step.passages]
    exact passagesAll_same noted body r
  | .enable _, _ => fun _ hp => nomatch hp
  | .note _ _, _ => fun _ hp => nomatch hp
  | .fail _, _ => fun _ hp => nomatch hp

theorem passagesAll_same (noted : Bool) : ∀ (steps : List Step) (r : Recorder),
    ∀ p ∈ passagesAll noted steps r, SameSpans p.entry.path p.exit.path
  | [], _ => fun _ hp => nomatch hp
  | step :: steps, r => by
    rw [passagesAll, List.forall_mem_append]
    refine ⟨Step.passages_same noted step r, ?_⟩
    rcases step.run noted r with ⟨⟨sightings, _ | f⟩, r'⟩
    · exact passagesAll_same noted steps r'
    · exact fun _ hp => nomatch hp

end

/-- **The current span is restored** at the end of every span and of every call that a program goes through, whatever
happened inside. After the whole program the same spans are open as before it; so if none was current at the beginning,
none is at the end. -/
theorem spans_restored (steps : List Step) (noted : Bool) (r : Recorder) :
    (∀ p ∈ passagesAll noted steps r, SameSpans p.entry.path p.exit.path) ∧
      SameSpans r.path (runAll noted steps r).2.path ∧
      ∀ on, (runAll noted steps (.idle on)).2.current? = none := by
  refine ⟨passagesAll_same noted steps r, runAll_same noted steps r, fun on => ?_⟩
  have hsame := runAll_same noted steps (.idle on)
  rw [Recorder.idle] at hsame ⊢
  dsimp only at hsame
  generalize (runAll noted steps ⟨on, [], []⟩).2 = after at hsame ⊢
  cases hpath : after.path with
  | nil => rw [Recorder.current?, hpath]; rfl
  | cons s around => rw [hpath] at hsame; cases hsame

end Trace

end LayeredFix
