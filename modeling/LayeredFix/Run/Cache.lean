import LayeredFix.Entries
import LayeredFix.Log.Event

/-!
# A cache whose entries expire

Outputs are kept under a key for a limited time. An entry expires when its age exceeds the time to live; a
read that meets an expired entry drops it, and every write drops all expired entries. Time is any type with
a difference and an order.

`CacheStep` and `TimedCache` put a cache beside a clock, for histories of reads, writes and passing time.
-/

namespace LayeredFix

/-- An output in a cache. -/
structure CacheEntry (τ : Type) where
  /-- The output. -/
  output : Text
  /-- When it was put in. -/
  created : τ

/-- A cache. -/
structure Cache (τ : Type) where
  /-- The time to live. -/
  ttl : τ
  /-- The entries by key, in the order in which the keys came in. -/
  entries : Entries (CacheEntry τ)

namespace Cache

variable {τ : Type}

/-- The cache without entries. -/
def empty (ttl : τ) : Cache τ := ⟨ttl, []⟩

/-- The number of entries, expired ones included. -/
def size (c : Cache τ) : Nat := c.entries.length

/-- All entries dropped. -/
def clear (c : Cache τ) : Cache τ := { c with entries := [] }

/-- The entry of a key, expired or not. -/
def entry? (c : Cache τ) (key : Text) : Option (CacheEntry τ) := Entries.get? key c.entries

/-- The entry of a key dropped. -/
def erase (c : Cache τ) (key : Text) : Cache τ :=
  { c with entries := Entries.erase key c.entries }

variable [Sub τ] [LT τ] [DecidableLT τ]

/-- Whether an entry has outlived its time. -/
def expired (c : Cache τ) (now : τ) (e : CacheEntry τ) : Bool := c.ttl < now - e.created

/-- The output of a key, and the cache after the read: an expired entry is dropped. -/
def get (c : Cache τ) (now : τ) (key : Text) : Option Text × Cache τ :=
  match c.entry? key with
  | none => (none, c)
  | some e => if c.expired now e then (none, c.erase key) else (some e.output, c)

/-- Whether a key has an output, and the cache after the read. What is no text is no key. -/
def contains (c : Cache τ) (now : τ) : Option Text → Bool × Cache τ
  | none => (false, c)
  | some key =>
    let (found, c) := c.get now key
    (found.isSome, c)

/-- How many entries have expired, and the cache without them. -/
def sweep (c : Cache τ) (now : τ) : Nat × Cache τ :=
  ((c.entries.filter fun e => c.expired now e.2).length,
   { c with entries := c.entries.filter fun e => !c.expired now e.2 })

/-- An output put in under a key; all expired entries are dropped, and counted. -/
def set (c : Cache τ) (now : τ) (key output : Text) : Nat × Cache τ :=
  sweep { c with entries := Entries.put key ⟨output, now⟩ c.entries } now

end Cache

/-- The events of dropping so many entries. -/
def Cache.sweepEvents (dropped : Nat) : List Event :=
  if dropped == 0 then [] else [.cacheSwept dropped]

/-! ### Histories -/

/-- A cache and a clock. -/
structure TimedCache (τ : Type) where
  /-- The cache. -/
  cache : Cache τ
  /-- The time. -/
  now : τ

/-- A step in the history of a cache. -/
inductive CacheStep (τ : Type) where
  /-- An output is put in. -/
  | set (key output : Text)
  /-- An output is asked for. -/
  | get (key : Text)
  /-- It is asked whether there is an output; what is no text is no key. -/
  | contains (key : Option Text)
  /-- Expired entries are dropped, as of now or as of a given time. -/
  | sweep (time : Option τ)
  /-- All entries are dropped. -/
  | clear
  /-- Time passes. -/
  | advance (amount : τ)

/-- The answer to a step. -/
inductive CacheAnswer where
  /-- Nothing to say. -/
  | done
  /-- An output, or none. -/
  | output (found : Option Text)
  /-- Yes or no. -/
  | truth (b : Bool)
  /-- A number of entries. -/
  | count (n : Nat)
  deriving DecidableEq, Repr

/-- One step: its answer, and the cache and clock after it. -/
def TimedCache.step {τ : Type} [Add τ] [Sub τ] [LT τ] [DecidableLT τ] (t : TimedCache τ) :
    CacheStep τ → CacheAnswer × TimedCache τ
  | .set key output => (.done, { t with cache := (t.cache.set t.now key output).2 })
  | .get key =>
    let (found, c) := t.cache.get t.now key
    (.output found, { t with cache := c })
  | .contains key =>
    let (b, c) := t.cache.contains t.now key
    (.truth b, { t with cache := c })
  | .sweep time =>
    let (n, c) := t.cache.sweep (time.getD t.now)
    (.count n, { t with cache := c })
  | .clear => (.done, { t with cache := t.cache.clear })
  | .advance d => (.done, { t with now := t.now + d })

/-! ### Time in numbers -/

instance : Add Number := ⟨Number.add⟩

instance : Sub Number := ⟨Number.sub⟩

instance : LT Number := ⟨fun a b => a.lt b = true⟩

instance : DecidableLT Number := fun a b => inferInstanceAs (Decidable (a.lt b = true))

end LayeredFix
