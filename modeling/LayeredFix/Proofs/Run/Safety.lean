import LayeredFix.Proofs.Check.SafeChange
import LayeredFix.Proofs.Run.Attempts
import LayeredFix.Proofs.Run.Outcome
import Mathlib.Data.List.Chain

/-!
# Taking changes back is safe

When changes are taken back on risk, no layer with a strict check can make the text worse, whatever its pass
does: a change that stands passed its check, and any other attempt leaves the text as it was (`make_safe`). So
the texts of a run form a chain of safe changes (`attempts_isChain`), and a valid text stays valid to the end
(`revert_safe`). Layers 4 and 5 are checked leniently and are left out here.
-/

namespace LayeredFix

/-! ### One attempt -/

namespace Attempt

/-- Whatever a strictly checked layer tries, the change from the text before to the text after is safe. -/
theorem make_safe {terms : Terms} (hrevert : terms.revertOnRisk = true) {layer : Layer}
    (hid : layer.id ≠ 4 ∧ layer.id ≠ 5) (t : Text) :
    terms.validator.Safe t (make terms layer t).after := by
  rcases make_cases terms layer t with
    ⟨f, -, hm⟩ | ⟨after, d, -, -, -, hm⟩ | ⟨after, es, -, hverdict, -, hm⟩ <;> rw [hm]
  · exact .refl _ t
  · exact .refl _ t
  · show terms.validator.Safe t after
    by_cases hsame : after = t
    · rw [hsame]
      exact .refl _ t
    · refine CheckKind.decide_safe hid (hverdict _ ?_)
      simp [verdict?, hrevert, hsame]

/-- No attempt says that there are more errors than before. -/
theorem moreErrors_notMem_events (terms : Terms) (layer : Layer) (t : Text) (m n : Nat) :
    .moreErrors m n ∉ (make terms layer t).events := by
  have hslow : .moreErrors m n ∉ slowEvents terms layer := by
    unfold slowEvents
    split <;> simp
  have hcheck (after : Text) : .moreErrors m n ∉ checkEvents layer t after := by
    unfold checkEvents Check.lenientEvents
    split
    · split <;> simp
    · simp
  rcases make_cases terms layer t with ⟨f, -, hm⟩ | ⟨after, d, -, -, -, hm⟩ | ⟨after, es, -, -, hes, hm⟩ <;>
    rw [hm]
  · simp [failed]
  · simp [reverted, hslow, hcheck]
  · rcases hes with rfl | rfl <;> simp [kept, hslow, hcheck]

end Attempt

namespace Service

/-! ### The attempts of a run -/

/-- **The texts of strictly checked layers form a chain of safe changes.** -/
theorem attempts_isChain (terms : Terms) (hrevert : terms.revertOnRisk = true) {layers : List Layer}
    (hids : ∀ l ∈ layers, l.id ≠ 4 ∧ l.id ≠ 5) (t : Text) :
    (t :: (attempts terms layers t).map Attempt.after).IsChain terms.validator.Safe := by
  induction layers generalizing t with
  | nil => exact List.IsChain.singleton t
  | cons layer rest ih =>
    rw [List.forall_mem_cons] at hids
    exact List.IsChain.cons_cons (Attempt.make_safe hrevert hids.1 t) (ih hids.2 _)

theorem moreErrors_notMem_attempts (terms : Terms) (layers : List Layer) (t : Text) (m n : Nat) :
    .moreErrors m n ∉ (attempts terms layers t).flatMap Attempt.events := by
  induction layers generalizing t with
  | nil => exact List.not_mem_nil
  | cons layer rest ih =>
    rw [attempts, List.flatMap_cons, List.mem_append, not_or]
    exact ⟨Attempt.moreErrors_notMem_events terms layer t m n, ih _⟩

/-- A valid result has no more errors than the input. -/
theorem regressionEvents_of_valid {v : Validator} {before after : Text} (h : (v.report after).valid = true) :
    regressionEvents v before after = [] := by
  unfold regressionEvents
  split
  · rfl
  · dsimp only
    rw [h]
    rfl

end Service

variable {τ : Type} [Sub τ] [LT τ] [DecidableLT τ]

/-- **Taking changes back is safe, whatever the layers do.** Take a run without the cache that takes changes
back, with layers other than 4 and 5. From each output to the next the change is safe; and if the text given is
valid, all outputs are, and the run does not report more errors than before. -/
theorem revert_safe (s : Service) (req : Request) (hids : ∀ l ∈ s.plan req, l.id ≠ 4 ∧ l.id ≠ 5)
    (now : τ) (c : Cache τ) (r : Recorder) :
    let done := s.run now { req with useCache := false, revertOnRisk := true } c r
    done.1.1.outputs.IsChain s.validator.Safe ∧
      ((s.validator.report req.text).valid = true →
        (∀ t ∈ done.1.1.outputs, (s.validator.report t).valid = true) ∧
        ∃ logged, done.2.events = r.events ++ logged ∧ ∀ m n, .moreErrors m n ∉ logged) := by
  intro done
  let strict : Request := { req with useCache := false, revertOnRisk := true }
  obtain ⟨extra, hrecord⟩ := s.run_of_not_caches strict rfl now c r
  obtain ⟨ended, hevents, hended⟩ := s.run_events now strict c r
  have hchain : (req.text :: (s.tries strict).map Attempt.after).IsChain s.validator.Safe :=
    Service.attempts_isChain (s.terms strict) rfl hids req.text
  have houtputs : done.1.1.outputs = req.text :: (s.tries strict).map Attempt.after :=
    congrArg (fun done => done.1.outputs) hrecord
  rw [houtputs]
  refine ⟨hchain, fun hvalid => ?_⟩
  have hall : ∀ t ∈ req.text :: (s.tries strict).map Attempt.after, (s.validator.report t).valid = true :=
    List.IsChain.induction _ _ hchain (fun _ _ hsafe => hsafe.valid) fun _ => hvalid
  refine ⟨hall, s.reported now strict c ++ ended, by rw [← List.append_assoc]; exact hevents, fun m n => ?_⟩
  have hanswer : (s.validator.report (s.answer strict)).valid = true :=
    hall _ (Service.finalText_mem req.text (s.tries strict))
  have hend : .moreErrors m n ∉ ended := by
    rcases hended with rfl | ⟨name, ok, children, rfl⟩ <;> simp
  rw [s.reported_of_not_caches strict rfl, Service.regressionEvents_of_valid hanswer, List.nil_append,
    List.mem_append, List.mem_append, not_or, not_or, List.mem_singleton]
  exact ⟨⟨Service.moreErrors_notMem_attempts _ _ _ m n, nofun⟩, hend⟩

/-- A service with a layer that damages the text, one that fails, one that adds a semicolon, and one that
leaves a conflict behind. -/
def unrulyService : Service where
  registry :=
    { layers :=
        [{ id := 1, name := [], description := [], transform := fun t => .ok (t ++ "<a></b>".toList) },
         { id := 2, name := [], description := [], transform := fun _ => .error default },
         { id := 3, name := [], description := [], transform := fun t => .ok (t ++ [';']) },
         { id := 6, name := [], description := [], transform := fun t => .ok ("import import ".toList ++ t) }]
      ascending := by decide }

/-- A request for all four layers. -/
def unrulyRequest : Request := { text := ['x'], layers := some [1, 2, 3, 6] }

/-- Only the semicolon stays. -/
theorem revert_safe_unruly :
    (∀ l ∈ unrulyService.plan unrulyRequest, l.id ≠ 4 ∧ l.id ≠ 5) ∧
      (let done := unrulyService.run (0 : Int) { unrulyRequest with useCache := false, revertOnRisk := true }
        (.empty 10) (.idle false)
      (done.1.1.outputs.IsChain unrulyService.validator.Safe ∧
        ((unrulyService.validator.report ['x']).valid = true →
          (∀ t ∈ done.1.1.outputs, (unrulyService.validator.report t).valid = true) ∧
          ∃ logged, done.2.events = [] ++ logged ∧ ∀ m n, .moreErrors m n ∉ logged)) ∧
        (unrulyService.validator.report ['x']).valid = true ∧
        done.1.1.outputs = [['x'], ['x'], ['x'], ['x', ';'], ['x', ';']]) :=
  have hids : ∀ l ∈ unrulyService.plan unrulyRequest, l.id ≠ 4 ∧ l.id ≠ 5 := by decide
  ⟨hids, revert_safe unrulyService unrulyRequest hids (0 : Int) (.empty 10) (.idle false), by decide,
    by decide⟩

end LayeredFix
