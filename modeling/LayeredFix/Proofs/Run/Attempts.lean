import LayeredFix.Run.Service

/-!
# The attempts of a run

What can come of trying a layer (`Attempt.make_cases`), and what holds of all attempts of a run whatever comes
of each.
-/

namespace LayeredFix

namespace Attempt

/-- An attempt fails with its pass, is taken back, or stands. -/
theorem make_cases (terms : Terms) (layer : Layer) (before : Text) :
    (∃ f, layer.transform before = .error f ∧ make terms layer before = failed layer before f) ∨
    (∃ after d, layer.transform before = .ok after ∧ verdict? terms layer before after = some d ∧
      d.shouldRevert = true ∧
      make terms layer before = reverted terms layer before d (checkEvents layer before after)) ∨
    (∃ after events, layer.transform before = .ok after ∧
      (∀ d, verdict? terms layer before after = some d → d.shouldRevert = false) ∧
      (events = [] ∨ events = checkEvents layer before after) ∧
      make terms layer before = kept terms layer before after events) := by
  unfold make
  rcases layer.transform before with f | after
  · exact Or.inl ⟨f, rfl, rfl⟩
  · right
    dsimp only
    rcases hv : verdict? terms layer before after with _ | d
    · exact Or.inr ⟨after, [], rfl, fun d hd => by simp [hv] at hd, Or.inl rfl, rfl⟩
    · dsimp only
      cases hd : d.shouldRevert with
      | true => exact Or.inl ⟨after, d, rfl, hv, hd, if_pos rfl⟩
      | false =>
        refine Or.inr ⟨after, _, rfl, fun d' hd' => ?_, Or.inr rfl, if_neg (by simp)⟩
        rw [hv, Option.some.injEq] at hd'
        exact hd' ▸ hd

/-- A verdict is the decision of the layer's check on a change, and there is one only if changes may be taken back. -/
theorem verdict?_eq_some {terms : Terms} {layer : Layer} {before after : Text} {d : Decision}
    (h : verdict? terms layer before after = some d) : terms.revertOnRisk = true ∧ after ≠ before ∧
      (CheckKind.ofLayer layer.id).decide terms.validator before after = d := by
  unfold verdict? at h
  split at h
  · rename_i hasked
    rw [Bool.and_eq_true, bne_iff_ne] at hasked
    exact ⟨hasked.1, hasked.2, Option.some.inj h⟩
  · cases h

theorem make_id (terms : Terms) (layer : Layer) (t : Text) : (make terms layer t).result.id = layer.id := by
  rcases make_cases terms layer t with ⟨f, -, h⟩ | ⟨after, d, -, -, -, h⟩ | ⟨after, es, -, -, -, h⟩ <;>
    rw [h] <;> rfl

/-- A failed layer leaves the text as it was. -/
theorem after_of_failed {terms : Terms} {layer : Layer} {t : Text}
    (h : (make terms layer t).result.success = false) : (make terms layer t).after = t := by
  rcases make_cases terms layer t with ⟨f, -, hm⟩ | ⟨after, d, -, -, -, hm⟩ | ⟨after, es, -, -, -, hm⟩ <;>
    rw [hm] at h ⊢
  · rfl
  · rfl
  · cases h

end Attempt

namespace Service

theorem attempts_ids (terms : Terms) (layers : List Layer) (t : Text) :
    (attempts terms layers t).map (fun a => a.result.id) = layers.map Layer.id := by
  induction layers generalizing t with
  | nil => rfl
  | cons layer rest ih => rw [attempts, List.map_cons, List.map_cons, Attempt.make_id, ih]

/-- The attempt at a place is that of the layer at this place. It starts from the text at that place, and the text
after it comes next. -/
theorem attempts_at (terms : Terms) {layers : List Layer} {t : Text} {i : Nat} {a : Attempt}
    (h : (attempts terms layers t)[i]? = some a) :
    ∃ layer before, layers[i]? = some layer ∧
      (t :: (attempts terms layers t).map Attempt.after)[i]? = some before ∧ a = Attempt.make terms layer before := by
  induction layers generalizing t i with
  | nil => simp [attempts] at h
  | cons layer rest ih =>
    rw [attempts] at h ⊢
    cases i with
    | zero =>
      obtain rfl : Attempt.make terms layer t = a := by simpa using h
      exact ⟨layer, t, rfl, rfl, rfl⟩
    | succ i =>
      obtain ⟨other, before, hother, hbefore, ha⟩ := ih (by simpa using h)
      exact ⟨other, before, by simpa using hother, by simpa using hbefore, ha⟩

theorem attempts_length (terms : Terms) (layers : List Layer) (t : Text) :
    (attempts terms layers t).length = layers.length := by
  have hids := congrArg List.length (attempts_ids terms layers t)
  simpa using hids

theorem finalText_cons (t : Text) (a : Attempt) (as : List Attempt) :
    finalText t (a :: as) = finalText a.after as := by
  cases as with
  | nil => rfl
  | cons b bs => simp [finalText, List.getLast?_cons]

/-- The last text of a run is one of its outputs. -/
theorem finalText_mem (t : Text) (as : List Attempt) : finalText t as ∈ t :: as.map Attempt.after := by
  induction as generalizing t with
  | nil => exact List.mem_cons_self ..
  | cons a as ih =>
    rw [finalText_cons, List.map_cons]
    exact List.mem_cons_of_mem _ (ih a.after)

/-- A run selects the layers of the registry that were asked for. -/
theorem mem_map_plan {s : Service} {req : Request} {id : Int} :
    id ∈ (s.plan req).map Layer.id ↔ id ∈ s.registry.ids ∧ id ∈ req.layers.getD s.defaultLayers := by
  simp only [plan, Registry.select, Registry.ids, List.mem_map, List.mem_filter, List.contains_iff_mem]
  constructor
  · rintro ⟨l, ⟨hl, hwanted⟩, rfl⟩
    exact ⟨⟨l, hl, rfl⟩, hwanted⟩
  · rintro ⟨⟨l, hl, rfl⟩, hwanted⟩
    exact ⟨l, ⟨hl, hwanted⟩, rfl⟩

end Service

end LayeredFix
