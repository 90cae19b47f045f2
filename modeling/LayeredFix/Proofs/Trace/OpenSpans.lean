import LayeredFix.Trace.Recorder

/-!
# Open spans

What the parts of a recorder do to the spans that are open, and what work inside a span or a call does to the spans
around it, if it leaves just its own span behind (`within_path`, `call_of_path`).
-/

namespace LayeredFix

/-- A span with more spans within. -/
def Span.adoptAll (s : Span) (children : List Span) : Span := { s with children := s.children ++ children }

@[simp] theorem Span.adoptAll_nil (s : Span) : s.adoptAll [] = s := by
  cases s
  simp [adoptAll]

@[simp] theorem Span.adoptAll_adopt (s child : Span) (children : List Span) :
    (s.adopt child).adoptAll children = s.adoptAll (child :: children) := by
  simp [adoptAll, adopt]

namespace Recorder

@[simp] theorem enabled_log (es : List Event) (r : Recorder) : (r.log es).enabled = r.enabled := rfl

@[simp] theorem path_log (es : List Event) (r : Recorder) : (r.log es).path = r.path := rfl

@[simp] theorem enabled_push (name : Text) (r : Recorder) : (r.push name).enabled = r.enabled := rfl

@[simp] theorem path_push (r : Recorder) (name : Text) : (r.push name).path = .begin name :: r.path := rfl

@[simp] theorem enabled_note (key : Text) (value : Json) (r : Recorder) : (r.note key value).enabled = r.enabled := by
  unfold note
  split <;> rfl

theorem path_note {key : Text} {value : Json} {r : Recorder} {s : Span} {rest : List Span} (h : r.path = s :: rest) :
    (r.note key value).path = s.note key value :: rest := by
  unfold note
  rw [h]

@[simp] theorem enabled_close (r : Recorder) : r.close.enabled = r.enabled := by
  unfold close
  split <;> rfl

theorem path_close {r : Recorder} {child parent : Span} {rest : List Span} (h : r.path = child :: parent :: rest) :
    r.close.path = parent.adopt child :: rest := by
  unfold close
  rw [h]

/-- A span leaves recording on or off if the work in it does. -/
theorem within_enabled {α : Type} {name : Text} {work : Bool → Recorder → α × Recorder}
    (h : ∀ active r, (work active r).2.enabled = r.enabled) (r : Recorder) :
    (r.within name work).2.enabled = r.enabled := by
  unfold within
  split
  · exact (enabled_close _).trans (h true _)
  · exact h false r

/-- While recording is on and a span is current, work that leaves just one span behind puts it into that span. -/
theorem within_path {α : Type} {name : Text} {work : Bool → Recorder → α × Recorder} {r : Recorder} {s child : Span}
    {rest : List Span} (hon : r.enabled = true) (h : r.path = s :: rest)
    (hwork : (work true (r.push name)).2.path = child :: s :: rest) :
    (r.within name work).2.path = s.adopt child :: rest := by
  unfold within
  rw [hon, h]
  exact path_close hwork

/-- If a call leaves just its root behind, its result gets the root as its tree. -/
theorem call_of_path {α : Type} {name : Text} {fails : α → Bool} {give : Span → α → α} {work : Recorder → α × Recorder}
    {r : Recorder} {a : α} {root : Span} (hon : r.enabled = true) (ha : (work (r.push name)).1 = a)
    (hfails : fails a = false) (hpath : (work (r.push name)).2.path = root :: r.path) :
    (r.call name fails give work).1 = give root a := by
  unfold call
  rw [if_pos hon]
  generalize work (r.push name) = done at ha hpath
  obtain ⟨a', r'⟩ := done
  obtain rfl : a' = a := ha
  dsimp only at hpath ⊢
  rw [hpath]
  dsimp only
  rw [if_neg (by simp [hfails])]

end Recorder

end LayeredFix
