import LayeredFix.Proofs.Run.Attempts
import LayeredFix.Proofs.Run.Outcome
import Mathlib.Data.List.Nodup

/-!
# Failed layers are as good as absent

A layer fails if its pass fails or its change is taken back; either way it leaves the text as it was. So the
other layers do in a run without the failed ones what they did in a run with them (`attempts_filter`), and the
record of the one can be read off the record of the other (`run_without_failed`). The layers are left out by
number, which picks out the right ones because no two layers of a registry share a number.
-/

namespace LayeredFix

/-- The outputs of a run without those of failed layers: the text given, and the text after each layer whose
change stands. -/
def RunRecord.standingOutputs (r : RunRecord) : List Text :=
  match r.outputs with
  | [] => []
  | given :: later => given :: ((r.results.zip later).filter fun x => x.1.success).map Prod.snd

/-! ### One attempt -/

namespace Attempt

/-- What an attempt leaves behind in the record of a run. -/
def recorded (a : Attempt) : LayerResult × Text := (a.result, a.after)

/-- A change that stands also stands where no change is taken back. -/
theorem recorded_of_success {terms plain : Terms} (hplain : plain.revertOnRisk = false) {layer : Layer}
    {t : Text} (h : (make terms layer t).result.success = true) :
    (make plain layer t).recorded = (make terms layer t).recorded := by
  rcases make_cases terms layer t with ⟨f, -, hm⟩ | ⟨after, d, -, -, -, hm⟩ | ⟨after, es, ht, -, -, hm⟩ <;>
    rw [hm] at h ⊢
  · cases h
  · cases h
  · have hv : verdict? plain layer t after = none := by simp [verdict?, hplain]
    unfold make
    rw [ht]
    dsimp only
    rw [hv]
    rfl

end Attempt

namespace Service

/-! ### The attempts of a run -/

/-- Attempts that leave the same behind agree in whatever is read from that. -/
theorem map_congr_recorded {β : Type} (f : LayerResult × Text → β) {as bs : List Attempt}
    (h : as.map Attempt.recorded = bs.map Attempt.recorded) :
    as.map (fun a => f a.recorded) = bs.map (fun a => f a.recorded) := by
  have hf := congrArg (List.map f) h
  rwa [List.map_map, List.map_map] at hf

/-- The last text depends only on what the attempts leave behind. -/
theorem finalText_congr {t : Text} {as bs : List Attempt}
    (h : as.map Attempt.recorded = bs.map Attempt.recorded) : finalText t as = finalText t bs := by
  have hafter : as.map Attempt.after = bs.map Attempt.after := map_congr_recorded Prod.snd h
  unfold finalText
  rw [← List.getLast?_map, ← List.getLast?_map, hafter]

/-- The failed attempts change nothing about the last text. -/
theorem finalText_filter (terms : Terms) (layers : List Layer) (t : Text) :
    finalText t ((attempts terms layers t).filter fun a => a.result.success) =
      finalText t (attempts terms layers t) := by
  induction layers generalizing t with
  | nil => rfl
  | cons layer rest ih =>
    rw [attempts, List.filter_cons, finalText_cons]
    cases hs : (Attempt.make terms layer t).result.success with
    | true => rw [if_pos rfl, finalText_cons, ih]
    | false =>
      rw [if_neg (by simp), Attempt.after_of_failed hs, ih]

/-- **The layers whose changes stand do the same on their own**, also where no change is taken back. -/
theorem attempts_filter {terms plain : Terms} (hplain : plain.revertOnRisk = false) {p : Layer → Bool}
    (layers : List Layer) (t : Text)
    (hp : ∀ x ∈ layers.zip (attempts terms layers t), p x.1 = x.2.result.success) :
    (attempts plain (layers.filter p) t).map Attempt.recorded =
      ((attempts terms layers t).filter fun a => a.result.success).map Attempt.recorded := by
  induction layers generalizing t with
  | nil => rfl
  | cons layer rest ih =>
    rw [attempts, List.zip_cons_cons, List.forall_mem_cons] at hp
    obtain ⟨hhead, htail⟩ := hp
    have hrest := ih _ htail
    rw [attempts, List.filter_cons, List.filter_cons, hhead]
    cases hs : (Attempt.make terms layer t).result.success with
    | true =>
      have hsame := Attempt.recorded_of_success hplain hs
      have hafter : (Attempt.make plain layer t).after = (Attempt.make terms layer t).after :=
        congrArg Prod.snd hsame
      rw [if_pos rfl, if_pos rfl, attempts, List.map_cons, List.map_cons, hsame, hafter, hrest]
    | false =>
      rw [Attempt.after_of_failed hs] at hrest ⊢
      rwa [if_neg (by simp), if_neg (by simp)]

theorem id_of_mem_zip {terms : Terms} {layers : List Layer} {t : Text} {x : Layer × Attempt}
    (hx : x ∈ layers.zip (attempts terms layers t)) : x.2.result.id = x.1.id := by
  induction layers generalizing t with
  | nil => cases hx
  | cons layer rest ih =>
    rcases List.mem_cons.1 hx with rfl | hx
    · exact Attempt.make_id terms layer t
    · exact ih hx

/-- The numbers of the layers whose changes do not stand. -/
def failedIds (as : List Attempt) : List Int := (as.filter fun a => !a.result.success).map fun a => a.result.id

/-- Among layers in ascending order, the numbers of the failed attempts tell which layers failed. -/
theorem contains_failedIds {terms : Terms} {layers : List Layer} {t : Text}
    (hids : layers.Pairwise fun a b => a.id < b.id) {x : Layer × Attempt}
    (hx : x ∈ layers.zip (attempts terms layers t)) :
    (!(failedIds (attempts terms layers t)).contains x.1.id) = x.2.result.success := by
  have hnodup : ((attempts terms layers t).map fun a => a.result.id).Nodup := by
    rw [attempts_ids]
    exact (List.pairwise_map.2 hids).imp fun h => Int.ne_of_lt h
  have hmem : x.2 ∈ attempts terms layers t := (List.of_mem_zip hx).2
  rw [Bool.not_eq_eq_eq_not, Bool.eq_iff_iff, List.contains_iff_mem, failedIds, List.mem_map]
  constructor
  · rintro ⟨a, ha, hid⟩
    obtain ⟨ha, hfailed⟩ := List.mem_filter.1 ha
    have hsame : a = x.2 := List.inj_on_of_nodup_map hnodup ha hmem (hid.trans (id_of_mem_zip hx).symm)
    exact hsame ▸ hfailed
  · exact fun hfailed => ⟨x.2, List.mem_filter.2 ⟨hmem, hfailed⟩, id_of_mem_zip hx⟩

/-! ### The record without the failed layers -/

theorem failedLayers_freshRecord (s : Service) (req : Request) (as : List Attempt) :
    (s.freshRecord req as).failedLayers = failedIds as := by
  show ((as.map Attempt.result).filter fun x => !x.success).map LayerResult.id = _
  rw [List.filter_map, List.map_map]
  rfl

theorem standingOutputs_freshRecord (s : Service) (req : Request) (as : List Attempt) :
    (s.freshRecord req as).standingOutputs =
      req.text :: (as.filter fun a => a.result.success).map Attempt.after := by
  show req.text :: (((as.map Attempt.result).zip (as.map Attempt.after)).filter fun x => x.1.success).map
    Prod.snd = _
  rw [List.zip_map', List.filter_map, List.map_map]
  rfl

/-- A request for some of the layers that were asked for selects just these of the layers selected. -/
theorem plan_filter (s : Service) {req req' : Request} {p : Int → Bool}
    (h : req'.layers = some ((req.layers.getD s.defaultLayers).filter p)) :
    s.plan req' = (s.plan req).filter fun l => p l.id := by
  unfold plan Registry.select
  rw [h, Option.getD_some, List.filter_filter]
  refine List.filter_congr fun l _ => ?_
  rw [Bool.eq_iff_iff, Bool.and_eq_true, List.contains_iff_mem, List.contains_iff_mem, List.mem_filter]
  exact and_comm

/-- The attempts of a request that leaves out the failed layers of another one are those that stand. -/
theorem tries_without_failed (s : Service) {req plain : Request} (htext : plain.text = req.text)
    (hplain : plain.revertOnRisk = false)
    (hlayers : plain.layers =
      some ((req.layers.getD s.defaultLayers).filter fun id => !(failedIds (s.tries req)).contains id)) :
    (s.tries plain).map Attempt.recorded =
      ((s.tries req).filter fun a => a.result.success).map Attempt.recorded := by
  have hids : (s.plan req).Pairwise fun a b => a.id < b.id := s.registry.ascending.filter _
  unfold tries at *
  rw [s.plan_filter hlayers, htext]
  exact attempts_filter hplain (s.plan req) req.text fun x hx => contains_failedIds hids hx

/-- What `run_without_failed` says, for the records of the attempts. -/
theorem freshRecord_without_failed (s : Service) (req plain : Request) (htext : plain.text = req.text)
    (hplain : plain.revertOnRisk = false)
    (hlayers : plain.layers = some ((req.layers.getD s.defaultLayers).filter fun id =>
      !(s.freshRecord req (s.tries req)).failedLayers.contains id)) :
    let full := s.freshRecord req (s.tries req)
    let rest := s.freshRecord plain (s.tries plain)
    rest.failedLayers = [] ∧
      rest.output = full.output ∧
      rest.results = full.results.filter (fun x => x.success) ∧
      rest.outputs = full.standingOutputs := by
  rw [failedLayers_freshRecord] at hlayers
  have hsame := s.tries_without_failed htext hplain hlayers
  have hresults :
      (s.tries plain).map Attempt.result = ((s.tries req).map Attempt.result).filter (·.success) := by
    rw [List.filter_map]
    exact map_congr_recorded Prod.fst hsame
  refine ⟨?_, ?_, hresults, ?_⟩
  · show (((s.tries plain).map Attempt.result).filter fun x => !x.success).map LayerResult.id = []
    rw [hresults, List.map_eq_nil_iff, List.filter_filter, List.filter_eq_nil_iff]
    exact fun x _ => by simp
  · show finalText plain.text (s.tries plain) = finalText req.text (s.tries req)
    rw [htext, finalText_congr hsame]
    exact finalText_filter _ _ _
  · rw [standingOutputs_freshRecord, ← htext]
    exact congrArg (plain.text :: ·) (map_congr_recorded Prod.snd hsame)

end Service

variable {τ : Type} [Sub τ] [LT τ] [DecidableLT τ]

/-- **A failed layer is as if it had not been selected.** Take a run without the cache, on any terms, and a
plain run of the same text with the layers that were asked for but did not fail. No layer fails in the second
run, it gives the same text, its results are those of the first run that stand, and its outputs are those of the
first run without the ones after failed layers. -/
theorem run_without_failed (s : Service) (req : Request) (now now' : τ) (c c' : Cache τ) (r r' : Recorder) :
    let full := (s.run now { req with useCache := false } c r).1.1
    let wanted := (req.layers.getD s.defaultLayers).filter fun id => !full.failedLayers.contains id
    let rest := (s.run now' { text := req.text, layers := some wanted, useCache := false } c' r').1.1
    rest.failedLayers = [] ∧
      rest.output = full.output ∧
      rest.results = full.results.filter (fun x => x.success) ∧
      rest.outputs = full.standingOutputs := by
  intro full wanted rest
  obtain ⟨extra, hfull⟩ := s.run_of_not_caches { req with useCache := false } rfl now c r
  obtain ⟨extra', hrest⟩ :=
    s.run_of_not_caches { text := req.text, layers := some wanted, useCache := false } rfl now' c' r'
  have hwanted : wanted = (req.layers.getD s.defaultLayers).filter fun id =>
      !(s.freshRecord { req with useCache := false }
        (s.tries { req with useCache := false })).failedLayers.contains id := by
    unfold wanted full
    rw [hfull]
    rfl
  unfold rest full
  rw [hrest, hfull]
  exact s.freshRecord_without_failed { req with useCache := false }
    { text := req.text, layers := some wanted, useCache := false } rfl rfl (congrArg some hwanted)

end LayeredFix
