import LayeredFix.Proofs.Entries
import LayeredFix.Proofs.Run.History
import LayeredFix.Proofs.Run.KeyBytes
import LayeredFix.Proofs.Run.Outcome

/-!
# The cache never shows

Whatever was run before, however the clock was moved and the cache swept or emptied, a run gives the text that
it would give without a cache (`cache_transparent`). What carries this is `Service.Holds`: every entry of the
cache is the answer to some request that was made before, under the key of that request. A key is a digest; it
is assumed that no two of the messages digested in the history have the same one (`Sha256.CollisionFree`).
-/

namespace LayeredFix

/-! ### What a cache holds -/

namespace Cache

variable {τ : Type} [Sub τ] [LT τ] [DecidableLT τ] {c : Cache τ} {now : τ} {key output : Text}
  {x : Text × CacheEntry τ}

/-- A read finds the output of an entry, and then leaves the cache as it was. -/
theorem get_of_some (h : (c.get now key).1 = some output) :
    (c.get now key).2 = c ∧ ∃ e, (key, e) ∈ c.entries ∧ e.output = output := by
  unfold get at h ⊢
  rcases he : c.entry? key with _ | e
  · simp [he] at h
  · simp only [he] at h ⊢
    split at h
    · simp at h
    · rename_i hexp
      rw [if_neg hexp]
      exact ⟨rfl, e, Entries.mem_of_get? he, Option.some.inj h⟩

/-- A read puts nothing into the cache. -/
theorem mem_of_mem_get (h : x ∈ (c.get now key).2.entries) : x ∈ c.entries := by
  unfold get at h
  rcases he : c.entry? key with _ | e
  · simpa [he] using h
  · simp only [he] at h
    split at h
    · exact (List.mem_filter.1 h).1
    · exact h

/-- Sweeping puts nothing into the cache. -/
theorem mem_of_mem_sweep (h : x ∈ (c.sweep now).2.entries) : x ∈ c.entries := (List.mem_filter.1 h).1

/-- A write puts only the output into the cache that is to be kept. -/
theorem mem_of_mem_set (h : x ∈ (c.set now key output).2.entries) :
    x = (key, ⟨output, now⟩) ∨ x ∈ c.entries :=
  Entries.mem_put (mem_of_mem_sweep h)

end Cache

/-- No two different messages among these have the same digest. -/
def Sha256.CollisionFree (messages : List (List UInt8)) : Prop :=
  ∀ m ∈ messages, ∀ m' ∈ messages, Sha256.hex m = Sha256.hex m' → m = m'

instance (messages : List (List UInt8)) : Decidable (Sha256.CollisionFree messages) :=
  inferInstanceAs (Decidable (∀ m ∈ messages, ∀ m' ∈ messages, Sha256.hex m = Sha256.hex m' → m = m'))

theorem Sha256.CollisionFree.mono {ms ms' : List (List UInt8)} (h : CollisionFree ms)
    (hsub : ∀ m ∈ ms', m ∈ ms) : CollisionFree ms' :=
  fun m hm m' hm' => h m (hsub m hm) m' (hsub m' hm')

/-! ### Keys and answers -/

/-- A selection is known by the numbers in it. -/
theorem Registry.select_congr {r : Registry} {w w' : List Int}
    (h : ∀ n, n ∈ (r.select w).map Layer.id ↔ n ∈ (r.select w').map Layer.id) : r.select w = r.select w' := by
  have hsub {w : List Int} {l : Layer} (hl : l ∈ r.layers) :
      w.contains l.id = true ↔ l.id ∈ (r.select w).map Layer.id := by
    constructor
    · exact fun hw => List.mem_map_of_mem (List.mem_filter.2 ⟨hl, hw⟩)
    · intro hm
      obtain ⟨l', hl', he⟩ := List.mem_map.1 hm
      exact he ▸ (List.mem_filter.1 hl').2
  refine List.filter_congr fun l hl => ?_
  rw [Bool.eq_iff_iff, hsub hl, hsub hl, h]

namespace Service

/-- The message whose digest is the key of a run. -/
def keyBytes (s : Service) (req : Request) : List UInt8 :=
  CacheKey.preimage (variant req) ((s.plan req).map Layer.id) req.text

/-- The key of a run, if it uses the cache. -/
def key (s : Service) (req : Request) : Text := Sha256.hex (s.keyBytes req)

theorem cacheKey?_of_caches {s : Service} {req : Request} (h : s.caches req = true) :
    s.cacheKey? req = some (s.key req) := if_pos h

theorem zero_notMem_variant (req : Request) : '\x00' ∉ variant req := by
  unfold variant
  split <;> decide

/-- **Runs with the same message behind their keys have the same answer**: the message tells whether changes
are taken back, which layers run, and the text. -/
theorem answer_congr {s : Service} {req req' : Request} (h : s.keyBytes req = s.keyBytes req') :
    s.answer req = s.answer req' := by
  obtain ⟨hvar, hids, htext⟩ := CacheKey.preimage_inj (zero_notMem_variant req) (zero_notMem_variant req') h
  have hrevert : req.revertOnRisk = req'.revertOnRisk := by
    revert hvar
    unfold variant
    cases req.revertOnRisk <;> cases req'.revertOnRisk <;> simp
  have hplan : s.plan req = s.plan req' := Registry.select_congr hids
  unfold answer tries terms
  rw [hplan, htext, hrevert]

/-! ### The invariant of the cache -/

/-- The messages digested for those of some requests that use the cache. -/
def digested (s : Service) (reqs : List Request) : List (List UInt8) := (reqs.filter s.caches).map s.keyBytes

theorem keyBytes_mem_digested {s : Service} {req : Request} {reqs : List Request} (h : req ∈ reqs)
    (hc : s.caches req = true) : s.keyBytes req ∈ s.digested reqs :=
  List.mem_map_of_mem (List.mem_filter.2 ⟨h, hc⟩)

variable {τ : Type}

theorem digested_append_subset (s : Service) (reqs more : List Request) :
    ∀ m ∈ s.digested reqs, m ∈ s.digested (reqs ++ more) := by
  unfold digested
  rw [List.filter_append, List.map_append]
  exact fun m => List.mem_append_left _

/-- Every entry of the cache is the answer to a request that was made before, under the key of that
request. -/
def Holds (s : Service) (made : List Request) (c : Cache τ) : Prop :=
  ∀ x ∈ c.entries, ∃ req ∈ made,
    s.caches req = true ∧ x.1 = s.key req ∧ x.2.output = s.answer req

theorem Holds.mono {s : Service} {made made' : List Request} {c c' : Cache τ} (h : s.Holds made c)
    (hmade : ∀ req ∈ made, req ∈ made') (hc : ∀ x ∈ c'.entries, x ∈ c.entries) : s.Holds made' c' := by
  intro x hx
  obtain ⟨req, hreq, hprops⟩ := h x (hc x hx)
  exact ⟨req, hmade req hreq, hprops⟩

/-! ### The three ways of a run -/

variable [Sub τ] [LT τ] [DecidableLT τ]

/-- A run leaves the cache alone, or is answered by it, or puts its answer into it. -/
theorem outcome_cases (s : Service) (now : τ) (req : Request) (c : Cache τ) :
    (s.caches req = false ∧ s.outcome now req c = (s.freshRecord req (s.tries req), c)) ∨
    (s.caches req = true ∧ ∃ output, (c.get now (s.key req)).1 = some output ∧
      s.outcome now req c = (s.hitRecord req output, c)) ∨
    (s.caches req = true ∧ (c.get now (s.key req)).1 = none ∧
      s.outcome now req c =
        (s.freshRecord req (s.tries req), ((c.get now (s.key req)).2.set now (s.key req) (s.answer req)).2)) := by
  cases hc : s.caches req with
  | false => exact Or.inl ⟨rfl, outcome_of_not_caches hc now c⟩
  | true =>
    unfold outcome lookUp keep
    rw [cacheKey?_of_caches hc]
    dsimp only
    rcases hg : c.get now (s.key req) with ⟨_ | output, c'⟩
    · exact Or.inr (Or.inr ⟨rfl, rfl, rfl⟩)
    · have hsome : (c.get now (s.key req)).1 = some output := by rw [hg]
      have hc' : c' = c := by
        have := (Cache.get_of_some hsome).1
        rwa [hg] at this
      exact Or.inr (Or.inl ⟨rfl, output, rfl, by rw [hc']⟩)

/-- A run keeps the invariant: what it puts into the cache is its own answer under its own key. -/
theorem Holds.outcome {s : Service} {made : List Request} {c : Cache τ} (h : s.Holds made c) (now : τ)
    (req : Request) : s.Holds (made ++ [req]) (s.outcome now req c).2 := by
  have hmade : ∀ r ∈ made, r ∈ made ++ [req] := fun r => List.mem_append_left _
  rcases s.outcome_cases now req c with ⟨-, ho⟩ | ⟨-, output, -, ho⟩ | ⟨hc, -, ho⟩ <;> rw [ho]
  · exact h.mono hmade fun _ => id
  · exact h.mono hmade fun _ => id
  · intro x hx
    rcases Cache.mem_of_mem_set hx with rfl | hx
    · exact ⟨req, List.mem_append_right _ (List.mem_singleton.2 rfl), hc, rfl, rfl⟩
    · exact h.mono hmade (fun _ => Cache.mem_of_mem_get) x hx

/-- Under the invariant a run gives its answer, also when the cache gives it. -/
theorem Holds.outcome_output {s : Service} {made : List Request} {c : Cache τ} (h : s.Holds made c) (now : τ)
    {req : Request} (hfree : Sha256.CollisionFree (s.digested (made ++ [req]))) :
    (s.outcome now req c).1.output = s.answer req := by
  rcases s.outcome_cases now req c with ⟨-, ho⟩ | ⟨hc, output, hg, ho⟩ | ⟨-, -, ho⟩ <;> rw [ho]
  · rfl
  · -- The entry was put in for a request with the same digest, so with the same message.
    obtain ⟨-, e, he, rfl⟩ := Cache.get_of_some hg
    obtain ⟨req', hreq', hc', hkey, hout⟩ := h _ he
    have hbytes : s.keyBytes req = s.keyBytes req' :=
      hfree _ (keyBytes_mem_digested (List.mem_append_right _ (List.mem_singleton.2 rfl)) hc)
        _ (keyBytes_mem_digested (List.mem_append_left _ hreq') hc') hkey
    exact hout.trans (answer_congr hbytes).symm
  · rfl

end Service

/-! ### Histories -/

variable {τ : Type} [Sub τ] [LT τ] [DecidableLT τ]

/-- What a run in a history shows of the cache: nothing in its text and its layers, no attempts if the cache
gave the answer, and an untouched cache if it does not use the cache. -/
structure Visit.Transparent (s : Service) (v : Visit τ) : Prop where
  /-- Text and layers are those of the same run with the cache left alone. -/
  same : ∀ (now : τ) (c : Cache τ) (r : Recorder),
    let plain := (s.run now { v.request with useCache := false } c r).1.1
    v.record.output = plain.output ∧ v.record.layers = plain.layers
  /-- A run that the cache answers has no results, and as outputs the text given and the answer. -/
  hit : v.record.cacheHit = true →
    v.record.results = [] ∧ v.record.outputs = [v.request.text, v.record.output]
  /-- A run that may not use the cache leaves it as it was. -/
  untouched : (v.request.useCache && s.cacheEnabled) = false → v.after.cache = v.before.cache

/-- A run from a cache that keeps the invariant does not show the cache. -/
theorem Session.run_transparent {σ : Session τ} {made : List Request} {req : Request}
    (h : σ.service.Holds made σ.cache) (hfree : Sha256.CollisionFree (σ.service.digested (made ++ [req])))
    {record : RunRecord} {σ' : Session τ} {recording : Bool}
    (hr : (record, σ'.cache) = (σ.service.run σ.now req σ.cache (.idle recording)).1) :
    (Visit.mk σ req record σ').Transparent σ.service := by
  obtain ⟨extra, ho⟩ := σ.service.run_fst σ.now req σ.cache (.idle recording)
  rw [ho, Prod.mk.injEq] at hr
  obtain ⟨rfl, hcache⟩ := hr
  refine ⟨fun now c r => ?_, fun hhit => ?_, fun hc => ?_⟩
  · obtain ⟨extra', ho'⟩ := σ.service.run_of_not_caches { req with useCache := false } rfl now c r
    rw [ho']
    refine ⟨h.outcome_output σ.now hfree, ?_⟩
    rcases σ.service.outcome_cases σ.now req σ.cache with ⟨-, ho⟩ | ⟨-, output, -, ho⟩ | ⟨-, -, ho⟩ <;>
      rw [ho] <;> rfl
  · rcases σ.service.outcome_cases σ.now req σ.cache with ⟨-, ho⟩ | ⟨-, output, -, ho⟩ | ⟨-, -, ho⟩
    · rw [ho] at hhit
      cases hhit
    · rw [ho]
      exact ⟨rfl, rfl⟩
    · rw [ho] at hhit
      cases hhit
  · rw [hcache, Service.outcome_of_not_caches hc]

variable [Add τ]

/-- Every step keeps the invariant. -/
theorem Session.step_holds {σ : Session τ} {made : List Request} (h : σ.service.Holds made σ.cache)
    (step : SessionStep τ) : σ.service.Holds (made ++ requests [step]) (σ.step step).2.cache := by
  have hmade : ∀ req ∈ made, req ∈ made ++ requests [step] := fun req => List.mem_append_left _
  cases step with
  | run req recording =>
    obtain ⟨extra, hr⟩ := σ.service.run_fst σ.now req σ.cache (.idle recording)
    show σ.service.Holds (made ++ [req]) (σ.service.run σ.now req σ.cache (.idle recording)).1.2
    rw [hr]
    exact h.outcome σ.now req
  | advance d => exact h.mono hmade fun _ => id
  | sweep time => exact h.mono hmade fun _ => Cache.mem_of_mem_sweep
  | clear => exact h.mono hmade fun _ hx => absurd hx List.not_mem_nil

/-- From a session whose cache keeps the invariant on, no run shows the cache. -/
theorem Session.visits_transparent (steps : List (SessionStep τ)) : ∀ (σ : Session τ) (made : List Request),
    σ.service.Holds made σ.cache →
    Sha256.CollisionFree (σ.service.digested (made ++ requests steps)) →
    ∀ v ∈ σ.visits steps, v.Transparent σ.service := by
  induction steps with
  | nil => intro σ made _ _ v hv; cases hv
  | cons step steps ih =>
    intro σ made h hfree v hv
    have hnext := σ.step_holds h step
    rw [requests_cons, ← List.append_assoc] at hfree
    have hfree' := hfree
    rw [← σ.step_service step] at hnext hfree' ⊢
    cases step with
    | run req recording =>
      rcases List.mem_cons.1 hv with rfl | hv
      · exact σ.run_transparent h (hfree.mono (Service.digested_append_subset _ _ _)) rfl
      · exact ih _ _ hnext hfree' v hv
    | advance d => exact ih _ _ hnext hfree' v hv
    | sweep time => exact ih _ _ hnext hfree' v hv
    | clear => exact ih _ _ hnext hfree' v hv

/-- **The cache never shows.** Let a service start with an empty cache, and let any steps follow: runs of any
text with any layers, with or without the cache, with or without taking changes back; movements of the clock in
either direction; sweeps as of any time; emptying. Then each request is answered by a run with the text and the
layers that it has without the cache. -/
theorem cache_transparent (s : Service) (ttl start : τ) (steps : List (SessionStep τ))
    (hfree : Sha256.CollisionFree (s.digested (requests steps))) :
    ((Session.mk s (.empty ttl) start).visits steps).map Visit.request = requests steps ∧
      ∀ v ∈ (Session.mk s (.empty ttl) start).visits steps, v.Transparent s := by
  refine ⟨Session.visits_request _ steps, ?_⟩
  have hempty : s.Holds [] (.empty ttl : Cache τ) := fun _ hx => absurd hx List.not_mem_nil
  exact Session.visits_transparent steps ⟨s, .empty ttl, start⟩ [] hempty hfree

/-- A service with a layer that adds a mark and a layer that fails. -/
def markingService : Service where
  registry :=
    { layers :=
        [{ id := 2, name := [], description := [], transform := fun t => .ok (t ++ ['!']) },
         { id := 3, name := [], description := [], transform := fun _ => .error default }]
      ascending := by decide }

/-- Two requests for the same layers, the second one after the first expired, and one that may take changes
back. -/
def markingSteps : List (SessionStep Int) :=
  [.run { text := ['a'], layers := some [2, 3] } false,
   .run { text := ['a'], layers := some [3, 9, 2] } true,
   .advance 20,
   .sweep none,
   .run { text := ['a'], layers := some [2, 3] } false,
   .run { text := ['a'], layers := some [2, 3], revertOnRisk := true } false]

/-- Of the four runs the second is answered by the cache. -/
theorem cache_transparent_marking :
    Sha256.CollisionFree (markingService.digested (requests markingSteps)) ∧
      (((Session.mk markingService (.empty 10) 0).visits markingSteps).map Visit.request =
          requests markingSteps ∧
        ∀ v ∈ (Session.mk markingService (.empty 10) 0).visits markingSteps, v.Transparent markingService) ∧
      ((Session.mk markingService (.empty 10) 0).visits markingSteps).map (fun v => v.record.cacheHit) =
        [false, true, false, false] :=
  have hfree : Sha256.CollisionFree (markingService.digested (requests markingSteps)) := by decide +kernel
  ⟨hfree, cache_transparent markingService 10 0 markingSteps hfree, by decide +kernel⟩

end LayeredFix
