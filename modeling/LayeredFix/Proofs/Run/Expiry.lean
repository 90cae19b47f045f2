import LayeredFix.Proofs.Run.Attempts
import LayeredFix.Proofs.Run.Transparency
import Mathlib.Algebra.Order.Group.Defs
import Mathlib.Algebra.Order.Group.Int

/-!
# When the cache answers

While the clock does not go back, the cache answers a run just if, since it was last emptied, a run that asked for the
same was not answered by it no longer ago than the time to live (`hit_iff_recent_miss`). A run that the cache answers
leaves it as it was, so an answer never prolongs the life of an entry. What carries this is `Session.Timely`: every
entry was put in by such a run, at the time that it bears, and for every such run within the time to live the cache
holds an entry that is no older.
-/

namespace LayeredFix

namespace Cache

variable {τ : Type} [Sub τ] [LT τ] [DecidableLT τ] {c : Cache τ} {now : τ} {key other output : Text}
  {e : CacheEntry τ}

@[simp] theorem ttl_get (c : Cache τ) (now : τ) (key : Text) : (c.get now key).2.ttl = c.ttl := by
  unfold get
  split
  · rfl
  · split <;> rfl

/-- A read finds an output just if there is an entry that has not expired. -/
theorem get_eq_some_iff :
    (c.get now key).1 = some output ↔ ∃ e, c.entry? key = some e ∧ c.expired now e = false ∧ e.output = output := by
  unfold get
  rcases c.entry? key with _ | e
  · simp
  · cases he : c.expired now e <;> simp [he]

/-- A read drops no entry of another key. -/
theorem entry?_get_of_ne (hne : other ≠ key) (h : c.entry? other = some e) :
    Cache.entry? (c.get now key).2 other = some e := by
  unfold get
  split
  · exact h
  · split
    · exact Entries.get?_erase_of_ne hne h
    · exact h

/-- Sweeping drops no entry that has not expired. -/
theorem entry?_sweep (h : c.entry? key = some e) (he : c.expired now e = false) :
    Cache.entry? (c.sweep now).2 key = some e :=
  Entries.get?_filter h (by rw [he]; rfl)

/-- A write drops no entry of another key that has not expired. -/
theorem entry?_set_of_ne (hne : other ≠ key) (h : c.entry? other = some e) (he : c.expired now e = false) :
    Cache.entry? (c.set now key output).2 other = some e := by
  refine entry?_sweep ?_ he
  show Entries.get? other (Entries.put key _ c.entries) = some e
  rw [Entries.get?_put, if_neg hne]
  exact h

/-- What is put in stays, unless it has expired at once. -/
theorem entry?_set_self (he : c.expired now ⟨output, now⟩ = false) :
    Cache.entry? (c.set now key output).2 key = some ⟨output, now⟩ := by
  refine entry?_sweep ?_ he
  show Entries.get? key (Entries.put key _ c.entries) = some _
  rw [Entries.get?_put, if_pos rfl]

end Cache

/-! ### Requests that ask for the same -/

namespace Service

/-- Requests that ask for the same: the same text, the same layers of the registry, whatever the order and whatever
else is asked for, and the same about taking changes back. -/
structure Alike (s : Service) (req req' : Request) : Prop where
  text : req.text = req'.text
  layers : ∀ id ∈ s.registry.ids, id ∈ req.layers.getD s.defaultLayers ↔ id ∈ req'.layers.getD s.defaultLayers
  revertOnRisk : req.revertOnRisk = req'.revertOnRisk

/-- Requests ask for the same just if the same message is digested for them. -/
theorem keyBytes_eq_iff {s : Service} {req req' : Request} : s.keyBytes req = s.keyBytes req' ↔ s.Alike req req' := by
  constructor
  · intro h
    obtain ⟨hvar, hids, htext⟩ := CacheKey.preimage_inj (zero_notMem_variant req) (zero_notMem_variant req') h
    refine ⟨htext, fun id hid => ?_, ?_⟩
    · have hselected := hids id
      rw [mem_map_plan, mem_map_plan] at hselected
      simpa [hid] using hselected
    · revert hvar
      unfold variant
      cases req.revertOnRisk <;> cases req'.revertOnRisk <;> simp
  · rintro ⟨htext, hlayers, hrevert⟩
    have hplan : s.plan req = s.plan req' := by
      refine Registry.select_congr fun id => ?_
      show id ∈ (s.plan req).map Layer.id ↔ id ∈ (s.plan req').map Layer.id
      rw [mem_map_plan, mem_map_plan]
      exact and_congr_right (hlayers id)
    unfold keyBytes variant
    rw [hplan, htext, hrevert]

theorem Alike.key_eq {s : Service} {req req' : Request} (h : s.Alike req req') : s.key req = s.key req' :=
  congrArg Sha256.hex (keyBytes_eq_iff.2 h)

end Service

/-! ### Runs that the cache did not answer -/

section

variable {τ : Type} [Sub τ] [LT τ] [DecidableLT τ]

/-- The record of a run from a session. -/
def Session.recordOf (σ : Session τ) (req : Request) (recording : Bool) : RunRecord :=
  (σ.service.run σ.now req σ.cache (.idle recording)).1.1

/-- A run is answered by the cache just if its outcome is. -/
theorem Session.cacheHit_recordOf (σ : Session τ) (req : Request) (recording : Bool) :
    (σ.recordOf req recording).cacheHit = (σ.service.outcome σ.now req σ.cache).1.cacheHit := by
  obtain ⟨extra, h⟩ := σ.service.run_fst σ.now req σ.cache (.idle recording)
  exact congrArg (fun done => done.1.cacheHit) h

variable [Add τ]

theorem Session.cache_step_run (σ : Session τ) (req : Request) (recording : Bool) :
    (σ.step (.run req recording)).2.cache = (σ.service.outcome σ.now req σ.cache).2 := by
  obtain ⟨extra, h⟩ := σ.service.run_fst σ.now req σ.cache (.idle recording)
  show (σ.service.run σ.now req σ.cache (.idle recording)).1.2 = _
  rw [h]

/-- Some time in a history, at `t₀` and after the cache was emptied for the last time, a run for `req` that may use
the cache was not answered by it. -/
def Session.MissedAt (σ : Session τ) (steps : List (SessionStep τ)) (req : Request) (t₀ : τ) : Prop :=
  ∃ before recording since, steps = before ++ .run req recording :: since ∧ .clear ∉ since ∧
    req.useCache = true ∧ ((σ.after before).recordOf req recording).cacheHit = false ∧ (σ.after before).now = t₀

variable {σ : Session τ} {steps : List (SessionStep τ)} {req : Request} {t₀ : τ}

theorem Session.MissedAt.mem_requests (h : σ.MissedAt steps req t₀) : req ∈ requests steps := by
  obtain ⟨before, recording, since, rfl, -⟩ := h
  exact List.mem_filterMap.2 ⟨_, List.mem_append_right _ (List.mem_cons_self ..), rfl⟩

theorem Session.MissedAt.useCache (h : σ.MissedAt steps req t₀) : req.useCache = true := by
  obtain ⟨before, recording, since, -, -, huse, -⟩ := h
  exact huse

/-- The last step of a history is such a run, or the run was made before and the last step does not empty the
cache. -/
theorem Session.missedAt_snoc {step : SessionStep τ} :
    σ.MissedAt (steps ++ [step]) req t₀ ↔
      (σ.MissedAt steps req t₀ ∧ step ≠ .clear) ∨
      ∃ recording, step = .run req recording ∧ req.useCache = true ∧
        ((σ.after steps).recordOf req recording).cacheHit = false ∧ (σ.after steps).now = t₀ := by
  constructor
  · rintro ⟨before, recording, since, hsteps, hclear, hmissed⟩
    rcases List.eq_nil_or_concat since with rfl | ⟨since, last, rfl⟩
    · obtain ⟨rfl, hlast⟩ := List.append_inj' hsteps rfl
      obtain rfl := List.singleton_inj.1 hlast
      exact Or.inr ⟨recording, rfl, hmissed⟩
    · rw [List.concat_eq_append, ← List.cons_append, ← List.append_assoc] at hsteps
      obtain ⟨rfl, hlast⟩ := List.append_inj' hsteps rfl
      obtain rfl := List.singleton_inj.1 hlast
      rw [List.concat_eq_append, List.mem_append, not_or] at hclear
      exact Or.inl ⟨⟨before, recording, since, rfl, hclear.1, hmissed⟩, fun h => hclear.2 (h ▸ List.mem_singleton.2 rfl)⟩
  · rintro (⟨⟨before, recording, since, rfl, hclear, hmissed⟩, hstep⟩ | ⟨recording, rfl, hmissed⟩)
    · refine ⟨before, recording, since ++ [step], by simp, ?_, hmissed⟩
      rw [List.mem_append, List.mem_singleton, not_or]
      exact ⟨hclear, hstep.symm⟩
    · exact ⟨steps, recording, [], rfl, List.not_mem_nil, hmissed⟩

/-- A run that is answered, or that does not use the cache, is not among those that were not answered. -/
theorem Session.missedAt_snoc_run {recording : Bool}
    (h : req.useCache = true → ((σ.after steps).recordOf req recording).cacheHit = true) (req' : Request) (t₀ : τ) :
    σ.MissedAt (steps ++ [.run req recording]) req' t₀ ↔ σ.MissedAt steps req' t₀ := by
  rw [missedAt_snoc]
  constructor
  · rintro (⟨hm, -⟩ | ⟨recording', heq, huse, hmiss, -⟩)
    · exact hm
    · obtain ⟨rfl, rfl⟩ := SessionStep.run.inj heq
      rw [h huse] at hmiss
      cases hmiss
  · exact fun hm => Or.inl ⟨hm, nofun⟩

end

/-! ### The invariant -/

/-- A step with which the clock does not go back. Sweeps are as of now. -/
def SessionStep.Onward {τ : Type} [Zero τ] [LE τ] : SessionStep τ → Prop
  | .advance d => 0 ≤ d
  | .sweep time => time = none
  | _ => True

variable {τ : Type} [AddCommGroup τ] [LinearOrder τ] [IsOrderedAddMonoid τ]

omit [IsOrderedAddMonoid τ] in
theorem Cache.expired_eq_false_iff {c : Cache τ} {now : τ} {e : CacheEntry τ} :
    c.expired now e = false ↔ now - e.created ≤ c.ttl := by
  simp [Cache.expired]

/-- After some steps the cache holds what it should. -/
structure Session.Timely (σ : Session τ) (steps : List (SessionStep τ)) : Prop where
  /-- The time to live is what it was. -/
  ttl : (σ.after steps).cache.ttl = σ.cache.ttl
  /-- No run was made in the future. -/
  past : ∀ req t₀, σ.MissedAt steps req t₀ → t₀ ≤ (σ.after steps).now
  /-- Every entry was put in by a run that was not answered, at the time that it bears. -/
  held : ∀ x ∈ (σ.after steps).cache.entries, ∃ req, σ.MissedAt steps req x.2.created ∧ x.1 = σ.service.key req
  /-- For every such run within the time to live there is an entry that is no older. -/
  fresh : ∀ req t₀, σ.MissedAt steps req t₀ → (σ.after steps).now - t₀ ≤ σ.cache.ttl →
    ∃ e, Cache.entry? (σ.after steps).cache (σ.service.key req) = some e ∧ t₀ ≤ e.created

omit [IsOrderedAddMonoid τ] in
theorem Session.timely_nil {σ : Session τ} (h : σ.cache.entries = []) : σ.Timely [] := by
  have hnone (req : Request) (t₀ : τ) : ¬ σ.MissedAt [] req t₀ := fun hm => List.not_mem_nil hm.mem_requests
  refine ⟨rfl, fun req t₀ hm => absurd hm (hnone req t₀), fun x hx => ?_, fun req t₀ hm => absurd hm (hnone req t₀)⟩
  rw [after_nil, h] at hx
  cases hx

omit [IsOrderedAddMonoid τ] in
/-- A run that may use the cache is answered by it just if there is an entry that has not expired. -/
theorem Service.cacheHit_outcome_iff {s : Service} {req : Request} (hcaches : s.caches req = true) (now : τ)
    (c : Cache τ) :
    (s.outcome now req c).1.cacheHit = true ↔ ∃ e, c.entry? (s.key req) = some e ∧ now - e.created ≤ c.ttl := by
  rcases s.outcome_cases now req c with ⟨hnot, -⟩ | ⟨-, output, hget, ho⟩ | ⟨-, hget, ho⟩
  · rw [hcaches] at hnot
    cases hnot
  · obtain ⟨e, he, hexpired, -⟩ := Cache.get_eq_some_iff.1 hget
    rw [ho]
    exact iff_of_true rfl ⟨e, he, Cache.expired_eq_false_iff.1 hexpired⟩
  · rw [ho]
    refine iff_of_false Bool.false_ne_true ?_
    rintro ⟨e, he, hage⟩
    have hfound := Cache.get_eq_some_iff.2 ⟨e, he, Cache.expired_eq_false_iff.2 hage, rfl⟩
    rw [hget] at hfound
    cases hfound

/-- **Under the invariant the cache answers just what it was asked no longer ago than the time to live.** -/
theorem Session.Timely.cacheHit_iff {σ : Session τ} {steps : List (SessionStep τ)} (h : σ.Timely steps)
    {req : Request} (hcaches : σ.service.caches req = true)
    (hfree : Sha256.CollisionFree (σ.service.digested (requests steps ++ [req]))) (recording : Bool) :
    ((σ.after steps).recordOf req recording).cacheHit = true ↔
      ∃ req' t₀, σ.MissedAt steps req' t₀ ∧ (σ.after steps).now - t₀ ≤ σ.cache.ttl ∧ σ.service.Alike req' req := by
  rw [cacheHit_recordOf, after_service, Service.cacheHit_outcome_iff hcaches, h.ttl]
  constructor
  · -- The entry bears the time of such a run, and its key is the digest of the same message.
    rintro ⟨e, he, hage⟩
    obtain ⟨req', hmissed, hkey⟩ := h.held _ (Entries.mem_of_get? he)
    have hcaches' : σ.service.caches req' = true := by
      rw [Service.caches, Bool.and_eq_true] at hcaches ⊢
      exact ⟨hmissed.useCache, hcaches.2⟩
    refine ⟨req', e.created, hmissed, hage, Service.keyBytes_eq_iff.1 ?_⟩
    refine hfree _ (Service.keyBytes_mem_digested (List.mem_append_left _ hmissed.mem_requests) hcaches')
      _ (Service.keyBytes_mem_digested (List.mem_append_right _ (List.mem_singleton.2 rfl)) hcaches) hkey.symm
  · rintro ⟨req', t₀, hmissed, hage, halike⟩
    obtain ⟨e, he, hle⟩ := h.fresh req' t₀ hmissed hage
    exact ⟨e, halike.key_eq ▸ he, (sub_le_sub_left hle _).trans hage⟩

/-- The invariant after one more step, from what the step does to the cache and the clock; the step does not empty the
cache and is no run that is not answered. -/
theorem Session.Timely.quiet {σ : Session τ} {steps : List (SessionStep τ)} (h : σ.Timely steps) {step : SessionStep τ}
    (hmissed : ∀ req t₀, σ.MissedAt (steps ++ [step]) req t₀ ↔ σ.MissedAt steps req t₀)
    (hnow : (σ.after steps).now ≤ (σ.after (steps ++ [step])).now)
    (httl : (σ.after (steps ++ [step])).cache.ttl = (σ.after steps).cache.ttl)
    (hheld : ∀ x ∈ (σ.after (steps ++ [step])).cache.entries, x ∈ (σ.after steps).cache.entries)
    (hfresh : ∀ key e, Cache.entry? (σ.after steps).cache key = some e → (σ.after steps).now - e.created ≤ σ.cache.ttl →
      Cache.entry? (σ.after (steps ++ [step])).cache key = some e) : σ.Timely (steps ++ [step]) where
  ttl := httl.trans h.ttl
  past req t₀ hm := (h.past req t₀ ((hmissed req t₀).1 hm)).trans hnow
  held x hx := by
    obtain ⟨req, hm, hkey⟩ := h.held x (hheld x hx)
    exact ⟨req, (hmissed req _).2 hm, hkey⟩
  fresh req t₀ hm hage := by
    have hage' : (σ.after steps).now - t₀ ≤ σ.cache.ttl := (sub_le_sub_right hnow t₀).trans hage
    obtain ⟨e, he, hle⟩ := h.fresh req t₀ ((hmissed req t₀).1 hm) hage'
    exact ⟨e, hfresh _ e he ((sub_le_sub_left hle _).trans hage'), hle⟩

/-- A run that is not answered puts its answer into the cache, at the time at which it is made. -/
theorem Session.Timely.missed {σ : Session τ} {steps : List (SessionStep τ)} (h : σ.Timely steps) {req : Request}
    {recording : Bool} (huse : req.useCache = true)
    (hmiss : ((σ.after steps).recordOf req recording).cacheHit = false)
    (hcache : (σ.after (steps ++ [.run req recording])).cache =
      (((σ.after steps).cache.get (σ.after steps).now (σ.service.key req)).2.set (σ.after steps).now
        (σ.service.key req) (σ.service.answer req)).2) :
    σ.Timely (steps ++ [.run req recording]) := by
  have hnow : (σ.after (steps ++ [.run req recording])).now = (σ.after steps).now := by rw [after_snoc]; rfl
  have hself : σ.MissedAt (steps ++ [.run req recording]) req (σ.after steps).now :=
    missedAt_snoc.2 (Or.inr ⟨recording, rfl, huse, hmiss, rfl⟩)
  have hbefore {req' : Request} {t₀ : τ} (hm : σ.MissedAt steps req' t₀) :
      σ.MissedAt (steps ++ [.run req recording]) req' t₀ := missedAt_snoc.2 (Or.inl ⟨hm, nofun⟩)
  have hcases {req' : Request} {t₀ : τ} (hm : σ.MissedAt (steps ++ [.run req recording]) req' t₀) :
      σ.MissedAt steps req' t₀ ∨ req' = req ∧ t₀ = (σ.after steps).now := by
    rcases missedAt_snoc.1 hm with ⟨hm, -⟩ | ⟨recording', heq, -, -, rfl⟩
    · exact Or.inl hm
    · exact Or.inr ⟨(SessionStep.run.inj heq).1.symm, rfl⟩
  refine ⟨?_, fun req' t₀ hm => ?_, fun x hx => ?_, fun req' t₀ hm hage => ?_⟩
  · rw [hcache]
    exact (Cache.ttl_get ..).trans h.ttl
  · rw [hnow]
    rcases hcases hm with hm | ⟨-, rfl⟩
    · exact h.past req' t₀ hm
    · exact le_rfl
  · rw [hcache] at hx
    rcases Cache.mem_of_mem_set hx with rfl | hx
    · exact ⟨req, hself, rfl⟩
    · obtain ⟨req', hm, hkey⟩ := h.held x (Cache.mem_of_mem_get hx)
      exact ⟨req', hbefore hm, hkey⟩
  · rw [hnow] at hage
    rw [hcache]
    have hpast : t₀ ≤ (σ.after steps).now := by
      rcases hcases hm with hm | ⟨-, rfl⟩
      · exact h.past req' t₀ hm
      · exact le_rfl
    by_cases hkey : σ.service.key req' = σ.service.key req
    · -- The new entry is the youngest of all.
      rw [hkey]
      refine ⟨_, Cache.entry?_set_self (Cache.expired_eq_false_iff.2 ?_), hpast⟩
      rw [Cache.ttl_get, h.ttl, sub_self]
      exact (sub_nonneg.2 hpast).trans hage
    · rcases hcases hm with hm | ⟨rfl, -⟩
      · obtain ⟨e, he, hle⟩ := h.fresh req' t₀ hm hage
        refine ⟨e, Cache.entry?_set_of_ne hkey (Cache.entry?_get_of_ne hkey he) (Cache.expired_eq_false_iff.2 ?_), hle⟩
        rw [Cache.ttl_get, h.ttl]
        exact (sub_le_sub_left hle _).trans hage
      · exact absurd rfl hkey

/-- Every step with which the clock does not go back keeps the invariant. -/
theorem Session.Timely.step {σ : Session τ} {steps : List (SessionStep τ)} (h : σ.Timely steps)
    (henabled : σ.service.cacheEnabled = true) {step : SessionStep τ} (hstep : step.Onward) :
    σ.Timely (steps ++ [step]) := by
  have hsnoc := σ.after_snoc steps step
  have hmissed (hclear : step ≠ .clear) (hrun : ∀ req recording, step ≠ .run req recording) (req : Request) (t₀ : τ) :
      σ.MissedAt (steps ++ [step]) req t₀ ↔ σ.MissedAt steps req t₀ := by
    rw [missedAt_snoc]
    constructor
    · rintro (⟨hm, -⟩ | ⟨recording, heq, -⟩)
      · exact hm
      · exact absurd heq (hrun req recording)
    · exact fun hm => Or.inl ⟨hm, hclear⟩
  cases step with
  | run req recording =>
    have hcache := (σ.after steps).cache_step_run req recording
    have hrecord := (σ.after steps).cacheHit_recordOf req recording
    rw [after_service] at hcache hrecord
    rw [← hsnoc] at hcache
    have hsame (hout : (σ.service.outcome (σ.after steps).now req (σ.after steps).cache).2 = (σ.after steps).cache)
        (hhit : req.useCache = true → ((σ.after steps).recordOf req recording).cacheHit = true) :
        σ.Timely (steps ++ [.run req recording]) := by
      rw [hout] at hcache
      exact h.quiet (missedAt_snoc_run hhit) (by rw [hsnoc]; rfl) (by rw [hcache]) (by rw [hcache]; exact fun _ => id)
        (by rw [hcache]; exact fun _ _ he _ => he)
    rcases σ.service.outcome_cases (σ.after steps).now req (σ.after steps).cache with
      ⟨hnot, ho⟩ | ⟨-, output, -, ho⟩ | ⟨huse, -, ho⟩
    · refine hsame (by rw [ho]) fun huse => ?_
      rw [Service.caches, huse, henabled] at hnot
      cases hnot
    · exact hsame (by rw [ho]) fun _ => by rw [hrecord, ho]; rfl
    · rw [ho] at hcache hrecord
      rw [Service.caches, Bool.and_eq_true] at huse
      exact h.missed huse.1 hrecord hcache
  | advance d =>
    refine h.quiet (hmissed (by simp) (by simp)) ?_ (by rw [hsnoc]; rfl) (by rw [hsnoc]; exact fun _ => id)
      (by rw [hsnoc]; exact fun _ _ he _ => he)
    rw [hsnoc]
    exact le_add_of_nonneg_right hstep
  | sweep time =>
    obtain rfl : time = none := hstep
    refine h.quiet (hmissed (by simp) (by simp)) (by rw [hsnoc]; rfl) (by rw [hsnoc]; rfl) ?_ fun key e he hage => ?_
    · rw [hsnoc]
      exact fun _ => Cache.mem_of_mem_sweep
    · rw [hsnoc]
      refine Cache.entry?_sweep he (Cache.expired_eq_false_iff.2 ?_)
      rw [h.ttl]
      exact hage
  | clear =>
    have hnone (req : Request) (t₀ : τ) : ¬ σ.MissedAt (steps ++ [.clear]) req t₀ := by
      rw [missedAt_snoc]
      rintro (⟨-, hne⟩ | ⟨_, heq, -⟩)
      · exact hne rfl
      · cases heq
    refine ⟨by rw [hsnoc]; exact h.ttl, fun req t₀ hm => absurd hm (hnone req t₀), fun x hx => ?_,
      fun req t₀ hm => absurd hm (hnone req t₀)⟩
    rw [hsnoc] at hx
    cases hx

theorem Session.timely {σ : Session τ} (hempty : σ.cache.entries = []) (henabled : σ.service.cacheEnabled = true)
    (steps : List (SessionStep τ)) (hsteps : ∀ step ∈ steps, step.Onward) : σ.Timely steps := by
  induction steps using List.reverseRecOn with
  | nil => exact timely_nil hempty
  | append_singleton steps step ih =>
    rw [List.forall_mem_append, List.forall_mem_singleton] at hsteps
    exact (ih hsteps.1).step henabled hsteps.2

/-- What a run for `req` after the steps of a history shows of the time to live. -/
structure Session.AnswersInTime (first : Session τ) (steps : List (SessionStep τ)) (req : Request) (recording : Bool) :
    Prop where
  /-- It is answered by the cache just if, since the cache was last emptied, a run that asked for the same was not
  answered, no longer ago than the time to live. -/
  cacheHit_iff : ((first.after steps).recordOf req recording).cacheHit = true ↔
    ∃ req' t₀, first.MissedAt steps req' t₀ ∧ (first.after steps).now - t₀ ≤ first.cache.ttl ∧
      first.service.Alike req' req
  /-- If it is answered, the cache stays as it was. -/
  untouched : ((first.after steps).recordOf req recording).cacheHit = true →
    ((first.after steps).step (.run req recording)).2.cache = (first.after steps).cache
  /-- It shares its key with all runs that ask for the same. -/
  shared : ∀ req', req'.useCache = true → first.service.Alike req' req →
    first.service.cacheKey? req' = first.service.cacheKey? req

/-- **The cache answers exactly within the time to live.** Let a service that keeps outputs start with an empty cache,
and let any steps follow with which the clock does not go back. Then a run that may use the cache is answered by it just
if, since the cache was last emptied, a run that asked for the same was not answered, no longer ago than the time to
live. A run that is answered leaves the cache as it was, and all runs that ask for the same share one key. -/
theorem hit_iff_recent_miss (s : Service) (henabled : s.cacheEnabled = true) (ttl start : τ)
    (steps : List (SessionStep τ)) (hsteps : ∀ step ∈ steps, step.Onward) (req : Request) (huse : req.useCache = true)
    (hfree : Sha256.CollisionFree (s.digested (requests steps ++ [req]))) (recording : Bool) :
    (Session.mk s (.empty ttl) start).AnswersInTime steps req recording := by
  have hcaches {req' : Request} (huse' : req'.useCache = true) : s.caches req' = true := by
    rw [Service.caches, huse', henabled]
    rfl
  have htimely : (Session.mk s (.empty ttl) start).Timely steps := Session.timely rfl henabled steps hsteps
  refine ⟨htimely.cacheHit_iff (hcaches huse) hfree recording, fun hhit => ?_, fun req' huse' halike => ?_⟩
  · rw [Session.cacheHit_recordOf] at hhit
    rw [Session.cache_step_run]
    generalize (Session.mk s (.empty ttl) start).after steps = last at hhit ⊢
    rcases last.service.outcome_cases last.now req last.cache with ⟨-, ho⟩ | ⟨-, output, -, ho⟩ | ⟨-, -, ho⟩
    · rw [ho]
    · rw [ho]
    · rw [ho] at hhit
      cases hhit
  · rw [Service.cacheKey?_of_caches (hcaches huse'), Service.cacheKey?_of_caches (hcaches huse), halike.key_eq]

/-- A request, and one that asks for the same in other words. -/
def plainRequest : Request := { text := ['a'], layers := some [2, 3] }

/-- See `plainRequest`. -/
def wordyRequest : Request := { text := ['a'], layers := some [3, 9, 2, 3] }

/-- The one request at first, the other one when the time to live is over to the point, and a moment more. -/
def timelySteps : List (SessionStep Int) :=
  [.run plainRequest false, .advance 10, .run wordyRequest true, .advance 1]

/-- The second request is answered. This does not prolong the life of the entry: the first one, made again a moment
later, is not. -/
theorem hit_iff_recent_miss_timely :
    (markingService.cacheEnabled = true ∧ (∀ step ∈ timelySteps, step.Onward) ∧ plainRequest.useCache = true ∧
      Sha256.CollisionFree (markingService.digested (requests timelySteps ++ [plainRequest]))) ∧
    (Session.mk markingService (.empty 10) 0).AnswersInTime timelySteps plainRequest false ∧
    ((Session.mk markingService (.empty 10) 0).visits (timelySteps ++ [.run plainRequest false])).map
      (fun v => v.record.cacheHit) = [false, true, false] :=
  have hsteps : ∀ step ∈ timelySteps, step.Onward := by simp [timelySteps, SessionStep.Onward]
  have hfree : Sha256.CollisionFree (markingService.digested (requests timelySteps ++ [plainRequest])) := by
    decide +kernel
  ⟨⟨rfl, hsteps, rfl, hfree⟩, hit_iff_recent_miss markingService rfl 10 0 timelySteps hsteps plainRequest rfl hfree false,
    by decide +kernel⟩

end LayeredFix
