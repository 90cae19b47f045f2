import LayeredFix.Proofs.Run.Chain
import Mathlib

/-!
# Change counts are a distance

The number of lines that a change touches counts the places at which both texts have a line and the lines differ, and
the lines that only one of them has (`placesChanged_eq`). It is a distance (`isDistance_changeCount`): it is zero for
equal texts only, it is the same in both directions, and a detour over a third text never makes it smaller. The detour
is what a run makes. Its results count the lines that each layer touched, so all of them together are at least the
lines in which the text that came out differs from the text given (`changeCount_bounds_run`).
-/

namespace LayeredFix

/-! ### Lists -/

theorem placesChanged_nil (bs : List Text) : placesChanged [] bs = bs.length := by
  rw [placesChanged]

theorem placesChanged_nil_right (as : List Text) : placesChanged as [] = as.length := by
  cases as <;> rfl

theorem placesChanged_cons (a b : Text) (as bs : List Text) :
    placesChanged (a :: as) (b :: bs) = (if a = b then 0 else 1) + placesChanged as bs := by
  simp only [placesChanged, beq_iff_eq]

/-- Two lists differ at the places that only one of them has, and at those where both have something different. -/
theorem placesChanged_eq (as bs : List Text) :
    placesChanged as bs =
      (as.length - bs.length) + (bs.length - as.length) + (as.zip bs).countP fun p => p.1 != p.2 := by
  induction as generalizing bs with
  | nil => simp [placesChanged_nil]
  | cons a as ih =>
    cases bs with
    | nil => simp [placesChanged_nil_right]
    | cons b bs =>
      rw [placesChanged_cons, ih, List.zip_cons_cons, List.countP_cons]
      by_cases hab : a = b
      · simp [hab]
      · simp [hab]
        omega

theorem placesChanged_comm (as bs : List Text) : placesChanged as bs = placesChanged bs as := by
  induction as generalizing bs with
  | nil => rw [placesChanged_nil, placesChanged_nil_right]
  | cons a as ih =>
    cases bs with
    | nil => rw [placesChanged_nil, placesChanged_nil_right]
    | cons b bs =>
      rw [placesChanged_cons, placesChanged_cons, ih]
      exact congrArg (· + _) (if_congr eq_comm rfl rfl)

theorem placesChanged_eq_zero_iff {as bs : List Text} : placesChanged as bs = 0 ↔ as = bs := by
  induction as generalizing bs with
  | nil => rw [placesChanged_nil, List.length_eq_zero_iff, eq_comm]
  | cons a as ih =>
    cases bs with
    | nil => simp [placesChanged_nil_right]
    | cons b bs =>
      rw [placesChanged_cons, Nat.add_eq_zero_iff, ih, List.cons.injEq]
      by_cases hab : a = b <;> simp [hab]

/-- A list is no longer than another one and the places at which they differ. -/
theorem length_le_add_placesChanged (as bs : List Text) : as.length ≤ bs.length + placesChanged as bs := by
  rw [placesChanged_eq]
  omega

/-- What differs between two lists differs on the way from the one to a third list or from there to the other. -/
theorem placesChanged_triangle (as bs cs : List Text) :
    placesChanged as cs ≤ placesChanged as bs + placesChanged bs cs := by
  induction as generalizing bs cs with
  | nil =>
    rw [placesChanged_nil, placesChanged_nil, placesChanged_comm bs]
    exact length_le_add_placesChanged cs bs
  | cons a as ih =>
    cases cs with
    | nil =>
      rw [placesChanged_nil_right, placesChanged_nil_right, Nat.add_comm]
      exact length_le_add_placesChanged (a :: as) bs
    | cons c cs =>
      cases bs with
      | nil =>
        -- Both lists are longer than the one between them, so this place counts twice on the way.
        have hrest := ih [] cs
        rw [placesChanged_nil_right, placesChanged_nil] at hrest ⊢
        rw [placesChanged_cons, List.length_cons, List.length_cons]
        split <;> omega
      | cons b bs =>
        have hrest := ih bs cs
        have hplace : (if a = c then 0 else 1) ≤ (if a = b then 0 else 1) + (if b = c then 0 else 1) := by
          by_cases hab : a = b
          · simp [hab]
          · by_cases hac : a = c <;> simp [hab, hac]
        rw [placesChanged_cons, placesChanged_cons, placesChanged_cons]
        omega

/-! ### Texts -/

/-- A count of differences between texts that is a distance. -/
structure IsDistance (count : Text → Text → Nat) : Prop where
  /-- Nothing differs between equal texts, and only between them. -/
  eq_zero_iff : ∀ a b, count a b = 0 ↔ a = b
  /-- The direction does not matter. -/
  symm : ∀ a b, count a b = count b a
  /-- A detour makes it no smaller. -/
  triangle : ∀ a b c, count a c ≤ count a b + count b c

theorem Text.lines_injective {t u : Text} (h : lines t = lines u) : t = u := by
  rw [← unlines_lines t, h, unlines_lines]

theorem isDistance_changeCount : IsDistance changeCount where
  eq_zero_iff a b := by
    rw [changeCount, placesChanged_eq_zero_iff]
    exact ⟨Text.lines_injective, fun h => h ▸ rfl⟩
  symm a b := placesChanged_comm _ _
  triangle a b c := placesChanged_triangle _ _ _

/-! ### Runs -/

namespace Service

/-- **Along the attempts of a run the counts add up** to at least the lines in which the last text differs from the
first. -/
theorem changeCount_finalText_le (terms : Terms) (layers : List Layer) (t : Text) :
    (changeCount t (finalText t (attempts terms layers t)) : Int) ≤
      ((attempts terms layers t).map fun a => a.result.changeCount).sum := by
  induction layers generalizing t with
  | nil =>
    show (changeCount t t : Int) ≤ 0
    rw [changeCount_self]
    rfl
  | cons layer rest ih =>
    rw [attempts, finalText_cons, List.map_cons, List.sum_cons, (Attempt.link terms layer t).count]
    have hrest := ih (Attempt.make terms layer t).after
    have hdetour := isDistance_changeCount.triangle t (Attempt.make terms layer t).after
      (finalText (Attempt.make terms layer t).after (attempts terms rest (Attempt.make terms layer t).after))
    omega

end Service

/-- The counts in a record account for the change of its text. -/
structure RunRecord.Counted (record : RunRecord) : Prop where
  /-- The text that came out differs from the text given in no more lines than the results count. -/
  le_sum : (changeCount record.input record.output : Int) ≤ (record.results.map LayerResult.changeCount).sum
  /-- If the text changed, there is a result that counts a line. -/
  exists_pos : record.output ≠ record.input → ∃ x ∈ record.results, 0 < x.changeCount

/-- Where the counts are large enough together, one of them is not zero if the text changed. -/
theorem RunRecord.counted_of_le_sum {record : RunRecord}
    (h : (changeCount record.input record.output : Int) ≤ (record.results.map LayerResult.changeCount).sum) :
    record.Counted where
  le_sum := h
  exists_pos hchanged := by
    have hcount : changeCount record.input record.output ≠ 0 := fun hzero =>
      hchanged ((isDistance_changeCount.eq_zero_iff _ _).1 hzero).symm
    have hsum : (record.results.map fun _ => (0 : Int)).sum < (record.results.map LayerResult.changeCount).sum := by
      rw [List.map_const', List.sum_replicate_int]
      omega
    exact List.exists_lt_of_sum_lt _ _ hsum

theorem Service.counted_freshRecord (s : Service) (req : Request) : (s.freshRecord req (s.tries req)).Counted := by
  refine RunRecord.counted_of_le_sum ?_
  show (changeCount req.text (finalText req.text (s.tries req)) : Int) ≤
    (((s.tries req).map Attempt.result).map LayerResult.changeCount).sum
  rw [List.map_map]
  exact changeCount_finalText_le (s.terms req) (s.plan req) req.text

variable {τ : Type} [Sub τ] [LT τ] [DecidableLT τ]

/-- **Change counts are a distance, and bound what a run does.** A run without the cache is not answered by it; and in
the record of a run that the cache does not answer the counts of the results add up to at least the lines in which the
text that came out differs from the text given, and one of them is positive if the text changed. -/
theorem changeCount_bounds_run :
    IsDistance changeCount ∧
      ∀ (s : Service) (req : Request) (now : τ) (c : Cache τ) (r : Recorder),
        let record := (s.run now req c r).1.1
        ((req.useCache && s.cacheEnabled) = false → record.cacheHit = false) ∧
          (record.cacheHit = false → record.Counted) := by
  refine ⟨isDistance_changeCount, fun s req now c r => ?_⟩
  intro record
  refine ⟨fun hc => s.cacheHit_run_of_not_caches req hc now c r, fun hmiss => ?_⟩
  obtain ⟨extra, hrecord⟩ := Service.run_of_miss hmiss
  have hrecord' : record = { s.freshRecord req (s.tries req) with extra := extra } := hrecord
  rw [hrecord']
  exact RunRecord.counted_of_le_sum (s.counted_freshRecord req).le_sum

/-- A service with a layer that puts a line in front, one that fails, and one that takes the line away again and marks
the end. -/
def detourService : Service where
  registry :=
    { layers :=
        [{ id := 1, name := [], description := [], transform := fun t => .ok ('\n' :: t) },
         { id := 2, name := [], description := [], transform := fun _ => .error default },
         { id := 3, name := [], description := [], transform := fun t => .ok (t.drop 1 ++ ['!']) }]
      ascending := by decide }

/-- A request for these layers on a text of two lines. -/
def detourRequest : Request := { text := ['a', '\n', 'b'], layers := some [1, 2, 3], useCache := false }

/-- One line differs in the end, but the layers touched six. -/
theorem changeCount_bounds_run_detour :
    let record := (detourService.run (0 : Int) detourRequest (.empty 10) (.idle false)).1.1
    (detourRequest.useCache && detourService.cacheEnabled) = false ∧ record.cacheHit = false ∧
      record.output ≠ record.input ∧ record.Counted ∧ changeCount record.input record.output = 1 ∧
      record.results.map LayerResult.changeCount = [3, 0, 3] :=
  have h := changeCount_bounds_run.2 detourService detourRequest (0 : Int) (.empty 10) (.idle false)
  have huncached : (detourRequest.useCache && detourService.cacheEnabled) = false := by decide
  ⟨huncached, h.1 huncached, by decide, h.2 (h.1 huncached), by decide, by decide⟩

end LayeredFix
