import LayeredFix.Layer.Basic
import LayeredFix.Text.Quoted
import LayeredFix.Number.Basic

/-!
# Registries of layers

A registry holds layers in ascending order of their numbers, no number twice. `Registry.ofList?` makes one
from layers in any order and refuses a repeated number; `Registry.select` picks layers by number, and the
order of the registry wins over the order of the request.
-/

namespace LayeredFix

/-- Layers in ascending order of their numbers. -/
structure Registry where
  /-- The layers. -/
  layers : List Layer
  /-- The order. -/
  ascending : layers.Pairwise fun a b => a.id < b.id

namespace Registry

/-- Puts a layer before the first one with a greater number. -/
def insertByNumber (l : Layer) : List Layer → List Layer
  | [] => [l]
  | m :: ms => if m.id < l.id then m :: insertByNumber l ms else l :: m :: ms

/-- Layers in the order of their numbers; among equal numbers the order is kept. -/
def byNumber (ls : List Layer) : List Layer := ls.foldr insertByNumber []

/-- Two neighbours with the same number. -/
def findTwins : List Layer → Option (Layer × Layer)
  | a :: b :: rest => if a.id == b.id then some (a, b) else findTwins (b :: rest)
  | _ => none

/-- The failure of two layers that share a number. -/
def twinFailure (a b : Layer) : Failure :=
  ⟨.registry, "Duplicate layer id ".toList ++ Text.ofInt a.id ++ [':', ' '] ++ Text.quoted a.name ++
    [',', ' '] ++ Text.quoted b.name⟩

/-- The failure of a number that no layer has. -/
def unknownFailure (id : Int) : Failure := ⟨.registry, "Unknown layer id ".toList ++ Text.ofInt id⟩

/-! ### The order -/

/-- Whether the numbers do not descend. -/
def InOrder (ls : List Layer) : Prop := ls.Pairwise fun a b => a.id ≤ b.id

theorem mem_insertByNumber {l x : Layer} {ls : List Layer} (h : x ∈ insertByNumber l ls) :
    x = l ∨ x ∈ ls := by
  induction ls with
  | nil => exact Or.inl (by simpa [insertByNumber] using h)
  | cons m ms ih =>
    unfold insertByNumber at h
    split at h
    · rcases List.mem_cons.1 h with rfl | h
      · exact Or.inr (List.mem_cons_self ..)
      · exact (ih h).imp id (List.mem_cons_of_mem _)
    · exact List.mem_cons.1 h

theorem inOrder_insertByNumber {l : Layer} {ls : List Layer} (h : InOrder ls) :
    InOrder (insertByNumber l ls) := by
  induction ls with
  | nil => exact List.pairwise_singleton ..
  | cons m ms ih =>
    obtain ⟨hm, hms⟩ := List.pairwise_cons.1 h
    unfold insertByNumber
    split
    · rename_i hlt
      refine List.pairwise_cons.2 ⟨fun x hx => ?_, ih hms⟩
      rcases mem_insertByNumber hx with rfl | hx
      · exact Int.le_of_lt hlt
      · exact hm x hx
    · rename_i hge
      refine List.pairwise_cons.2 ⟨fun x hx => ?_, h⟩
      have hle : l.id ≤ m.id := Int.not_lt.1 hge
      rcases List.mem_cons.1 hx with rfl | hx
      · exact hle
      · exact Int.le_trans hle (hm x hx)

theorem inOrder_byNumber (ls : List Layer) : InOrder (byNumber ls) := by
  induction ls with
  | nil => exact List.Pairwise.nil
  | cons l ls ih => exact inOrder_insertByNumber ih

theorem ascending_of_findTwins {ls : List Layer} (h : InOrder ls) (hn : findTwins ls = none) :
    ls.Pairwise fun a b => a.id < b.id := by
  induction ls with
  | nil => exact List.Pairwise.nil
  | cons a rest ih =>
    cases rest with
    | nil => exact List.pairwise_singleton ..
    | cons b rest =>
      unfold findTwins at hn
      split at hn
      · simp at hn
      · rename_i hne
        obtain ⟨ha, hrest⟩ := List.pairwise_cons.1 h
        have hasc := ih hrest hn
        refine List.pairwise_cons.2 ⟨fun x hx => ?_, hasc⟩
        have hab : a.id < b.id := by
          have hle := ha b (List.mem_cons_self ..)
          have hne' : a.id ≠ b.id := by simpa using hne
          omega
        rcases List.mem_cons.1 hx with rfl | hx
        · exact hab
        · exact Int.lt_trans hab ((List.pairwise_cons.1 hasc).1 x hx)

/-! ### Operations -/

/-- The registry of some layers; two layers may not share a number. -/
def ofList? (ls : List Layer) : Except Failure Registry :=
  match h : findTwins (byNumber ls) with
  | some (a, b) => .error (twinFailure a b)
  | none => .ok ⟨byNumber ls, ascending_of_findTwins (inOrder_byNumber ls) h⟩

/-- The registry without layers. -/
def empty : Registry := ⟨[], List.Pairwise.nil⟩

/-- The layers. -/
def toList (r : Registry) : List Layer := r.layers

/-- The numbers of the layers. -/
def ids (r : Registry) : List Int := r.layers.map Layer.id

/-- The number of layers. -/
def size (r : Registry) : Nat := r.layers.length

/-- The layer with a number. -/
def find? (r : Registry) (id : Int) : Option Layer := r.layers.find? fun l => l.id == id

/-- Whether a layer has this number. -/
def contains (r : Registry) (id : Int) : Bool := (r.find? id).isSome

/-- The layer with a number, or the failure that there is none. -/
def get (r : Registry) (id : Int) : Except Failure Layer :=
  match r.find? id with
  | some l => .ok l
  | none => .error (unknownFailure id)

/-- The layers whose numbers are asked for, in the order of the registry. -/
def select (r : Registry) (wanted : List Int) : List Layer :=
  r.layers.filter fun l => wanted.contains l.id

/-- A layer with another pass, if it has this number. -/
def swap (id : Int) (f : Transform) (l : Layer) : Layer :=
  if l.id == id then { l with transform := f } else l

theorem id_swap (id : Int) (f : Transform) (l : Layer) : (swap id f l).id = l.id := by
  unfold swap
  split <;> rfl

/-- The registry in which the layer with a number makes another pass, or the failure that there is no such
layer. -/
def withTransform (r : Registry) (id : Int) (f : Transform) : Except Failure Registry :=
  match r.get id with
  | .error e => .error e
  | .ok _ =>
    .ok ⟨r.layers.map (swap id f), by
      simpa only [List.pairwise_map, id_swap] using r.ascending⟩

/-- The registry in one line: the numbers of its layers. -/
def describe (r : Registry) : Text :=
  "LayerRegistry(ids=[".toList ++ List.intercalate [',', ' '] (r.ids.map Text.ofInt) ++ [']', ')']

end Registry

end LayeredFix
