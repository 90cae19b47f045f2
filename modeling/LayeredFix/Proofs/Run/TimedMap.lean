import LayeredFix.Proofs.Run.Expiry
import Mathlib.Data.Set.Card

/-!
# The cache as a timed map

While the clock does not go back, the cache answers as a map that remembers for each key what was last put in and when,
and that shows it as long as it is no older than the time to live (`cache_timedMap`). That a read drops an expired entry
and that a write drops all of them cannot be seen in the answers, only in the number of entries; and after a write or a
sweep that is the number of keys that the map shows. The map is read off the history of the cache, from its end
(`lastPut?`). What ties the cache to it is `Cache.Keeps`: the cache holds nothing but what was last put in, and all of
that which has not expired.
-/

namespace LayeredFix

/-! ### What a cache keeps -/

namespace Cache

variable {τ : Type} [AddCommGroup τ] [LinearOrder τ] {c : Cache τ} {now : τ} {last : Text → Option (CacheEntry τ)}

/-- The cache keeps what was last put in: it holds nothing else, and all of it that has not expired. -/
structure Keeps (c : Cache τ) (now : τ) (last : Text → Option (CacheEntry τ)) : Prop where
  nodup : (Entries.names c.entries).Nodup
  held : ∀ key e, c.entry? key = some e → last key = some e
  kept : ∀ key e, last key = some e → now - e.created ≤ c.ttl → c.entry? key = some e

/-- What is shown of the entries: those that are no older than the time to live. -/
def shown (ttl now : τ) (last : Text → Option (CacheEntry τ)) (key : Text) : Option Text :=
  ((last key).filter fun e => now - e.created ≤ ttl).map CacheEntry.output

theorem keeps_empty (ttl now : τ) : (empty ttl).Keeps now fun _ => none :=
  ⟨List.nodup_nil, nofun, nofun⟩

/-- Dropping entries that have expired, and no others. -/
theorem Keeps.filter (h : c.Keeps now last) {p : Text × CacheEntry τ → Bool}
    (hp : ∀ key e, c.entry? key = some e → now - e.created ≤ c.ttl → p (key, e) = true) :
    Keeps { c with entries := c.entries.filter p } now last where
  nodup := Entries.nodup_filter p h.nodup
  held key e he := h.held key e (Entries.get?_of_filter h.nodup he).1
  kept key e he hage :=
    have hentry := h.kept key e he hage
    Entries.get?_filter hentry (hp key e hentry hage)

theorem Keeps.get (h : c.Keeps now last) (key : Text) : (c.get now key).2.Keeps now last := by
  unfold Cache.get
  cases hkey : c.entry? key with
  | none => exact h
  | some e =>
    dsimp only
    split
    · rename_i hexpired
      refine h.filter fun other e' he' hage => ?_
      -- The entry that is dropped has expired, so one that has not is of another key.
      have hne : other ≠ key := by
        rintro rfl
        obtain rfl : e = e' := Option.some.inj (hkey.symm.trans he')
        rw [expired_eq_false_iff.2 hage] at hexpired
        cases hexpired
      simpa using hne
    · exact h

theorem Keeps.sweep (h : c.Keeps now last) : (c.sweep now).2.Keeps now last :=
  h.filter fun key e _ hage => by simp [expired_eq_false_iff.2 hage]

/-- Putting an output in before anything is dropped. -/
theorem Keeps.put (h : c.Keeps now last) (key output : Text) :
    Keeps { c with entries := Entries.put key ⟨output, now⟩ c.entries } now
      fun other => if other = key then some ⟨output, now⟩ else last other where
  nodup := Entries.nodup_put h.nodup
  held other e he := by
    have he' : Entries.get? other (Entries.put key ⟨output, now⟩ c.entries) = some e := he
    rw [Entries.get?_put] at he'
    split at he'
    · rw [if_pos ‹_›]
      exact he'
    · rw [if_neg ‹_›]
      exact h.held other e he'
  kept other e he hage := by
    show Entries.get? other (Entries.put key ⟨output, now⟩ c.entries) = some e
    rw [Entries.get?_put]
    split
    · rwa [if_pos ‹_›] at he
    · rw [if_neg ‹_›] at he
      exact h.kept other e he hage

/-- A read gives what is shown. -/
theorem Keeps.get_fst (h : c.Keeps now last) (key : Text) : (c.get now key).1 = shown c.ttl now last key := by
  refine Option.ext fun output => ?_
  unfold shown
  rw [get_eq_some_iff]
  simp only [Option.map_eq_some_iff, Option.filter_eq_some_iff, decide_eq_true_eq, expired_eq_false_iff]
  constructor
  · rintro ⟨e, he, hage, rfl⟩
    exact ⟨e, ⟨h.held key e he, hage⟩, rfl⟩
  · rintro ⟨e, ⟨he, hage⟩, rfl⟩
    exact ⟨e, h.kept key e he hage, hage, rfl⟩

theorem Keeps.contains_fst (h : c.Keeps now last) (key : Text) :
    (c.contains now (some key)).1 = (shown c.ttl now last key).isSome := congrArg Option.isSome (h.get_fst key)

/-- **After a sweep there are as many entries as keys for which an output is shown.** -/
theorem Keeps.size_sweep (h : c.Keeps now last) :
    ((c.sweep now).2.size : ℕ∞) = {key | (shown c.ttl now last key).isSome}.encard := by
  have hnames (key : Text) : key ∈ Entries.names (c.sweep now).2.entries ↔ (shown c.ttl now last key).isSome := by
    rw [Entries.mem_names_iff, ← h.get_fst, Option.isSome_iff_exists]
    constructor
    · rintro ⟨e, he⟩
      obtain ⟨hentry, hfresh⟩ := Entries.get?_of_filter h.nodup he
      exact ⟨e.output, get_eq_some_iff.2 ⟨e, hentry, by simpa using hfresh, rfl⟩⟩
    · rintro ⟨output, hget⟩
      obtain ⟨e, he, hfresh, -⟩ := get_eq_some_iff.1 hget
      exact ⟨e, entry?_sweep he hfresh⟩
  have hset : {key | (shown c.ttl now last key).isSome} = ↑(Entries.names (c.sweep now).2.entries).toFinset := by
    ext key
    simp [hnames]
  rw [hset, Set.encard_coe_eq_coe_finsetCard, List.toFinset_card_of_nodup h.sweep.nodup]
  simp [size, Entries.names]

/-- A sweep says by how much the number of entries went down. -/
theorem size_sweep_add (c : Cache τ) (now : τ) : (c.sweep now).2.size + (c.sweep now).1 = c.size := by
  have hsplit := List.length_eq_length_filter_add (l := c.entries) fun e => c.expired now e.2
  unfold sweep size
  dsimp only
  omega

theorem Keeps.later [IsOrderedAddMonoid τ] (h : c.Keeps now last) {d : τ} (hd : 0 ≤ d) : c.Keeps (now + d) last where
  nodup := h.nodup
  held := h.held
  kept key e he hage := h.kept key e he ((sub_le_sub_right (le_add_of_nonneg_right hd) _).trans hage)

end Cache

/-! ### The map in a history -/

namespace CacheStep

section

variable {τ : Type} [Add τ]

/-- The time after some steps, the last one first. -/
def clock (start : τ) : List (CacheStep τ) → τ
  | [] => start
  | .advance d :: earlier => clock start earlier + d
  | _ :: earlier => clock start earlier

/-- What was last put in under a key since all was dropped, and when. The last step comes first. -/
def lastPut? (start : τ) (key : Text) : List (CacheStep τ) → Option (CacheEntry τ)
  | [] => none
  | .set other output :: earlier =>
    if key = other then some ⟨output, clock start earlier⟩ else lastPut? start key earlier
  | .clear :: _ => none
  | _ :: earlier => lastPut? start key earlier

/-- Whether a step is more than a read or a sweep. -/
def changes : CacheStep τ → Bool
  | .set .. | .clear | .advance _ => true
  | .get _ | .contains _ | .sweep _ => false

theorem clock_filter_changes (start : τ) (done : List (CacheStep τ)) :
    clock start (done.filter changes) = clock start done := by
  induction done with
  | nil => rfl
  | cons step done ih => cases step <;> simp [List.filter_cons, changes, clock, ih]

theorem lastPut?_filter_changes (start : τ) (key : Text) (done : List (CacheStep τ)) :
    lastPut? start key (done.filter changes) = lastPut? start key done := by
  induction done with
  | nil => rfl
  | cons step done ih => cases step <;> simp [List.filter_cons, changes, lastPut?, ih, clock_filter_changes]

end

variable {τ : Type} [AddCommGroup τ] [LinearOrder τ]

/-- What the map shows for a key after some steps: what was last put in, if it is no older than the time to live. -/
def current (ttl start : τ) (steps : List (CacheStep τ)) (key : Text) : Option Text :=
  Cache.shown ttl (clock start steps.reverse) (fun key => lastPut? start key steps.reverse) key

/-- The keys for which the map shows an output. -/
def currentKeys (ttl start : τ) (steps : List (CacheStep τ)) : Set Text :=
  {key | (current ttl start steps key).isSome}

theorem current_filter_changes (ttl start : τ) (steps : List (CacheStep τ)) (key : Text) :
    current ttl start (steps.filter changes) key = current ttl start steps key := by
  unfold current
  rw [← List.filter_reverse, clock_filter_changes]
  simp only [lastPut?_filter_changes]

theorem currentKeys_snoc (ttl start : τ) (steps : List (CacheStep τ)) (step : CacheStep τ) :
    currentKeys ttl start (steps ++ [step]) =
      {key | (Cache.shown ttl (clock start (step :: steps.reverse))
        (fun key => lastPut? start key (step :: steps.reverse)) key).isSome} := by
  unfold currentKeys current
  rw [List.reverse_append]
  rfl

/-- A step with which the clock does not go back. Sweeps are as of now. -/
def Onward : CacheStep τ → Prop
  | .advance d => 0 ≤ d
  | .sweep time => time = none
  | _ => True

end CacheStep

/-! ### The cache in a history -/

namespace TimedCache

open CacheStep (clock lastPut? current currentKeys)

variable {τ : Type} [AddCommGroup τ] [LinearOrder τ]

/-- The cache and the clock after some steps. -/
def after (t : TimedCache τ) (steps : List (CacheStep τ)) : TimedCache τ :=
  steps.foldl (fun t step => (t.step step).2) t

theorem after_snoc (t : TimedCache τ) (steps : List (CacheStep τ)) (step : CacheStep τ) :
    t.after (steps ++ [step]) = ((t.after steps).step step).2 := List.foldl_append

/-- After some steps, the last one first, the clock is right and the cache keeps what was last put in. -/
structure Agrees (ttl start : τ) (done : List (CacheStep τ)) (t : TimedCache τ) : Prop where
  ttl : t.cache.ttl = ttl
  now : t.now = clock start done
  keeps : t.cache.Keeps t.now fun key => lastPut? start key done

/-- **Every step with which the clock does not go back keeps the cache in agreement with the map.** -/
theorem Agrees.step [IsOrderedAddMonoid τ] {ttl start : τ} {done : List (CacheStep τ)} {t : TimedCache τ}
    (h : t.Agrees ttl start done) {step : CacheStep τ} (hstep : step.Onward) :
    (t.step step).2.Agrees ttl start (step :: done) := by
  cases step with
  | set key output =>
    refine ⟨h.ttl, h.now, ?_⟩
    have hput := (h.keeps.put key output).sweep
    rw [h.now] at hput
    rw [TimedCache.step, h.now]
    exact hput
  | get key => exact ⟨(Cache.ttl_get ..).trans h.ttl, h.now, h.keeps.get key⟩
  | contains key =>
    cases key with
    | none => exact ⟨h.ttl, h.now, h.keeps⟩
    | some key => exact ⟨(Cache.ttl_get ..).trans h.ttl, h.now, h.keeps.get key⟩
  | sweep time =>
    obtain rfl : time = none := hstep
    exact ⟨h.ttl, h.now, h.keeps.sweep⟩
  | clear => exact ⟨h.ttl, h.now, Cache.keeps_empty t.cache.ttl t.now⟩
  | advance d => exact ⟨h.ttl, congrArg (· + d) h.now, h.keeps.later hstep⟩

theorem agrees_after [IsOrderedAddMonoid τ] (ttl start : τ) (steps : List (CacheStep τ))
    (hsteps : ∀ step ∈ steps, step.Onward) :
    ((TimedCache.mk (.empty ttl) start).after steps).Agrees ttl start steps.reverse := by
  induction steps using List.reverseRecOn with
  | nil => exact ⟨rfl, rfl, Cache.keeps_empty ttl start⟩
  | append_singleton steps step ih =>
    rw [List.forall_mem_append, List.forall_mem_singleton] at hsteps
    rw [after_snoc, List.reverse_append]
    exact (ih hsteps.1).step hsteps.2

/-- What the cache shows after the steps of a history is what the map shows. -/
structure ShowsMap (ttl start : τ) (steps : List (CacheStep τ)) (t : TimedCache τ) : Prop where
  /-- A read gives what was last put in under the key, if it is no older than the time to live. -/
  get : ∀ key, (t.step (.get key)).1 = .output (current ttl start steps key)
  /-- A key is there just if a read gives something. -/
  contains : ∀ key, (t.step (.contains (some key))).1 = .truth (current ttl start steps key).isSome
  /-- What is no text is never there. -/
  contains_none : (t.step (.contains none)).1 = .truth false
  /-- After a write there are as many entries as keys for which something is shown. -/
  size_set : ∀ key output, ((t.step (.set key output)).2.cache.size : ℕ∞) =
    (currentKeys ttl start (steps ++ [.set key output])).encard
  /-- After a sweep too. -/
  size_sweep : ((t.step (.sweep none)).2.cache.size : ℕ∞) = (currentKeys ttl start (steps ++ [.sweep none])).encard
  /-- A sweep says by how much the number of entries went down. -/
  sweep : ∃ n, (t.step (.sweep none)).1 = .count n ∧ (t.step (.sweep none)).2.cache.size + n = t.cache.size
  /-- Without the reads and sweeps before it, a read gives the same. -/
  unseen : ∀ key, (t.step (.get key)).1 =
    (((TimedCache.mk (.empty ttl) start).after (steps.filter CacheStep.changes)).step (.get key)).1

variable {ttl start : τ} {steps : List (CacheStep τ)} {t : TimedCache τ}

theorem Agrees.shown (h : t.Agrees ttl start steps.reverse) (key : Text) :
    Cache.shown t.cache.ttl t.now (fun key => lastPut? start key steps.reverse) key = current ttl start steps key := by
  rw [h.ttl, h.now]
  rfl

theorem Agrees.get (h : t.Agrees ttl start steps.reverse) (key : Text) :
    (t.step (.get key)).1 = .output (current ttl start steps key) := by
  show CacheAnswer.output (t.cache.get t.now key).1 = _
  rw [h.keeps.get_fst, h.shown]

theorem Agrees.contains (h : t.Agrees ttl start steps.reverse) (key : Text) :
    (t.step (.contains (some key))).1 = .truth (current ttl start steps key).isSome := by
  show CacheAnswer.truth (t.cache.contains t.now (some key)).1 = _
  rw [h.keeps.contains_fst, h.shown]

theorem Agrees.size_set (h : t.Agrees ttl start steps.reverse) (key output : Text) :
    ((t.step (.set key output)).2.cache.size : ℕ∞) = (currentKeys ttl start (steps ++ [.set key output])).encard := by
  obtain ⟨c, now⟩ := t
  obtain ⟨rfl, hnow, hkeeps⟩ := h
  obtain rfl : now = clock start steps.reverse := hnow
  rw [CacheStep.currentKeys_snoc]
  exact (hkeeps.put key output).size_sweep

theorem Agrees.size_sweep (h : t.Agrees ttl start steps.reverse) :
    ((t.step (.sweep none)).2.cache.size : ℕ∞) = (currentKeys ttl start (steps ++ [.sweep none])).encard := by
  obtain ⟨c, now⟩ := t
  obtain ⟨rfl, hnow, hkeeps⟩ := h
  obtain rfl : now = clock start steps.reverse := hnow
  rw [CacheStep.currentKeys_snoc]
  exact hkeeps.size_sweep

end TimedCache

/-- **The cache is a timed map.** Whatever the time to live, from an empty cache on and while the clock does not go back,
a read gives what was last put in under its key since the cache was last emptied, if that is no older than the time to
live, and nothing otherwise; and after a write or a sweep the entries are as many as the keys for which there is
something to read. That expired entries are dropped cannot be seen in what is read. -/
theorem cache_timedMap {τ : Type} [AddCommGroup τ] [LinearOrder τ] [IsOrderedAddMonoid τ] (ttl start : τ)
    (steps : List (CacheStep τ)) (hsteps : ∀ step ∈ steps, step.Onward) :
    ((TimedCache.mk (.empty ttl) start).after steps).ShowsMap ttl start steps := by
  have h := TimedCache.agrees_after ttl start steps hsteps
  refine ⟨h.get, h.contains, rfl, h.size_set, h.size_sweep, ⟨_, rfl, Cache.size_sweep_add _ _⟩, fun key => ?_⟩
  have hquiet := TimedCache.agrees_after ttl start (steps.filter CacheStep.changes) fun step hstep =>
    hsteps step (List.mem_of_mem_filter hstep)
  rw [h.get, hquiet.get, CacheStep.current_filter_changes]

/-- Two outputs under different keys, the second one put in when the time to live of the first is over to the point, and
a read a moment later. -/
def expiringSteps : List (CacheStep Int) :=
  [.set ['k'] ['a'], .advance 10, .get ['k'], .set ['m'] ['b'], .advance 1, .get ['k'], .contains none]

/-- The first output is shown to the point, and not a moment longer. -/
theorem cache_timedMap_expiring :
    (∀ step ∈ expiringSteps, step.Onward) ∧
      ((TimedCache.mk (.empty 10) 0).after expiringSteps).ShowsMap 10 0 expiringSteps ∧
      CacheStep.current 10 0 (expiringSteps.take 4) ['k'] = some ['a'] ∧
      CacheStep.current 10 0 expiringSteps ['k'] = none ∧ CacheStep.current 10 0 expiringSteps ['m'] = some ['b'] :=
  have hsteps : ∀ step ∈ expiringSteps, step.Onward := by simp [expiringSteps, CacheStep.Onward]
  ⟨hsteps, cache_timedMap 10 0 expiringSteps hsteps, by decide, by decide, by decide⟩

-- Where the time to live is negative, what is put in is gone at once.
example : CacheStep.current (-1 : Int) 0 [.set ['k'] ['a']] ['k'] = none := by decide

end LayeredFix
