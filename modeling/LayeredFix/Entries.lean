import LayeredFix.Text.Basic

/-!
# Entries

Values under names, in order, each name once: the members of an object, the rows of a table, the entries of
a store. `Entries.put` keeps the order: a name that is there already keeps its place and takes the new value,
a new name comes last. `Entries.merge` puts entries over others.

`get?_put` says what is found after an entry has been put in, `get?_merge` what is found in a merge.
-/

namespace LayeredFix

/-- Values under names, in order. -/
abbrev Entries (α : Type) := List (Text × α)

namespace Entries

variable {α : Type}

/-- The value of a name. -/
def get? (name : Text) : Entries α → Option α
  | [] => none
  | (n, v) :: es => if n == name then some v else get? name es

/-- Whether there is an entry of this name. -/
def has (name : Text) (es : Entries α) : Bool := es.any (·.1 == name)

/-- The entries with `name` set: in its old place, or at the end. -/
def put (name : Text) (value : α) : Entries α → Entries α
  | [] => [(name, value)]
  | (n, v) :: es => if n == name then (n, value) :: es else (n, v) :: put name value es

/-- The entries without `name`. -/
def erase (name : Text) (es : Entries α) : Entries α := es.filter fun e => e.1 != name

/-- The entries `base` overridden by the entries `newer`. -/
def merge (base newer : Entries α) : Entries α := newer.foldl (fun es e => put e.1 e.2 es) base

/-- The entries given; of a repeated name the first place and the last value count. -/
def ofList (es : List (Text × α)) : Entries α := merge [] es

/-- What is found after an entry has been put in. -/
theorem get?_put (name key : Text) (value : α) (es : Entries α) :
    get? key (put name value es) = if key = name then some value else get? key es := by
  induction es with
  | nil => grind [get?, put]
  | cons e es ih => grind [get?, put]

/-- What is found in two rows of entries, one after the other. -/
theorem get?_append (key : Text) (es fs : Entries α) :
    get? key (es ++ fs) = (get? key es).or (get? key fs) := by
  induction es with
  | nil => simp [get?]
  | cons e es ih => grind [get?]

/-- What is found in a merge is what the last entry of the name among the newer ones holds, or else what the
older ones hold. -/
theorem get?_merge (key : Text) (base newer : Entries α) :
    get? key (merge base newer) = (get? key newer.reverse).or (get? key base) := by
  induction newer generalizing base with
  | nil => simp [merge, get?]
  | cons e es ih =>
    have h := ih (put e.1 e.2 base)
    simp only [merge, List.foldl_cons] at h ⊢
    rw [h, get?_put, List.reverse_cons, get?_append]
    grind [get?]

end Entries

end LayeredFix
