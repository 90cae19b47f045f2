import LayeredFix.Layer.Registry
import Mathlib.Data.List.Sort

/-!
# One layer for a number

A registry can be made of layers just if no two of them share a number, and then it is made of them whatever order they
come in: it holds the same layers in ascending order, and there is only one such list (`ofList?_eq_ok_iff`). So the layer
with a number is the only one (`find?_eq_some_iff`). While the layers are gone through in order they can be entered in a
table by their numbers: the table refuses a number just where two neighbours share it, and what is looked up in the full
table is what is found in the registry (`enter_byNumber`, `find?_eq_lookup`).
-/

namespace LayeredFix.Registry

/-! ### Making a registry -/

theorem perm_insertByNumber (l : Layer) (ls : List Layer) : (insertByNumber l ls).Perm (l :: ls) := by
  induction ls with
  | nil => exact List.Perm.refl _
  | cons m ms ih =>
    unfold insertByNumber
    split
    · exact (ih.cons m).trans (List.Perm.swap l m ms)
    · exact List.Perm.refl _

theorem perm_byNumber (ls : List Layer) : (byNumber ls).Perm ls := by
  induction ls with
  | nil => exact List.Perm.refl _
  | cons l ls ih => exact (perm_insertByNumber l _).trans (ih.cons l)

/-- Among layers with the same number the order is kept. -/
theorem filter_byNumber (id : Int) (ls : List Layer) :
    (byNumber ls).filter (fun l => l.id == id) = ls.filter fun l => l.id == id := by
  have hinsert (l : Layer) (ms : List Layer) :
      (insertByNumber l ms).filter (fun m => m.id == id) = (l :: ms).filter fun m => m.id == id := by
    induction ms with
    | nil => rfl
    | cons m ms ih =>
      unfold insertByNumber
      split
      · rename_i hlt
        rw [List.filter_cons, ih, List.filter_cons, List.filter_cons, List.filter_cons]
        by_cases hm : m.id = id
        · have hl : l.id ≠ id := by omega
          simp [hl]
        · simp [hm]
      · rfl
  induction ls with
  | nil => rfl
  | cons l ls ih =>
    show (insertByNumber l (byNumber ls)).filter _ = _
    rw [hinsert, List.filter_cons, ih, List.filter_cons]

/-- What is found are neighbours with the same number. -/
theorem exists_of_findTwins {ls : List Layer} {a b : Layer} (h : findTwins ls = some (a, b)) :
    a.id = b.id ∧ ∃ front back, ls = front ++ a :: b :: back := by
  induction ls with
  | nil => cases h
  | cons x rest ih =>
    cases rest with
    | nil => cases h
    | cons y rest =>
      unfold findTwins at h
      split at h
      · rename_i hsame
        obtain ⟨rfl, rfl⟩ := Prod.mk.inj (Option.some.inj h)
        exact ⟨beq_iff_eq.1 hsame, [], rest, rfl⟩
      · obtain ⟨hsame, front, back, hrest⟩ := ih h
        exact ⟨hsame, x :: front, back, congrArg (x :: ·) hrest⟩

theorem not_nodup_of_findTwins {ls : List Layer} {a b : Layer} (h : findTwins ls = some (a, b)) :
    ¬ (ls.map Layer.id).Nodup := by
  obtain ⟨hsame, front, back, rfl⟩ := exists_of_findTwins h
  intro hnodup
  rw [List.map_append, List.map_cons, List.map_cons, hsame] at hnodup
  exact (List.nodup_cons.1 (List.nodup_append.1 hnodup).2.1).1 List.mem_cons_self

theorem nodup_of_ascending {ls : List Layer} (h : ls.Pairwise fun a b => a.id < b.id) : (ls.map Layer.id).Nodup :=
  (List.pairwise_map.2 h).imp fun hlt => Int.ne_of_lt hlt

/-- A registry is made, or neighbours with the same number are refused. -/
theorem ofList?_cases (ls : List Layer) :
    (∃ a b, findTwins (byNumber ls) = some (a, b) ∧ ofList? ls = .error (twinFailure a b)) ∨
    (findTwins (byNumber ls) = none ∧ ∃ r : Registry, r.layers = byNumber ls ∧ ofList? ls = .ok r) := by
  unfold ofList?
  split
  · rename_i a b htwins
    exact Or.inl ⟨a, b, htwins, rfl⟩
  · rename_i hnone
    exact Or.inr ⟨hnone, _, rfl, rfl⟩

theorem eq_of_layers_eq {r r' : Registry} (h : r.layers = r'.layers) : r = r' := by
  obtain ⟨ls, hls⟩ := r
  obtain ⟨ls', hls'⟩ := r'
  subst h
  rfl

/-- Layers in ascending order are in the only such order. -/
theorem eq_of_perm {r r' : Registry} (h : r.layers.Perm r'.layers) : r = r' :=
  eq_of_layers_eq (h.eq_of_pairwise (fun _ _ _ _ hab hba => absurd hab (Int.lt_asymm hba)) r.ascending r'.ascending)

/-- **What is made of some layers is the registry that holds just these.** -/
theorem ofList?_eq_ok_iff {ls : List Layer} {r : Registry} : ofList? ls = .ok r ↔ r.layers.Perm ls := by
  rcases ofList?_cases ls with ⟨a, b, htwins, hls⟩ | ⟨-, r', hr', hls⟩
  · rw [hls]
    refine iff_of_false (fun h => nomatch h) fun hperm => ?_
    have hnodup : ((byNumber ls).map Layer.id).Nodup :=
      (((perm_byNumber ls).trans hperm.symm).map Layer.id).nodup_iff.2 (nodup_of_ascending r.ascending)
    exact not_nodup_of_findTwins htwins hnodup
  · have hperm : r'.layers.Perm ls := hr' ▸ perm_byNumber ls
    rw [hls, Except.ok.injEq]
    constructor
    · rintro rfl
      exact hperm
    · exact fun h => eq_of_perm (hperm.trans h.symm)

/-- Layers are refused for two that share a number, named in the order in which they came. -/
theorem ofList?_eq_error {ls : List Layer} {f : Failure} (h : ofList? ls = .error f) :
    ∃ a b, [a, b].Sublist ls ∧ a.id = b.id ∧ f = twinFailure a b := by
  rcases ofList?_cases ls with ⟨a, b, htwins, hls⟩ | ⟨-, r, -, hls⟩
  · obtain ⟨hsame, front, back, hsorted⟩ := exists_of_findTwins htwins
    refine ⟨a, b, ?_, hsame, Except.error.inj (h.symm.trans hls)⟩
    have hpair : [a, b].Sublist (byNumber ls) := by
      rw [hsorted]
      exact (List.sublist_append_left [a, b] back).trans (List.sublist_append_right front _)
    have htwin : [a, b].Sublist ((byNumber ls).filter fun l => l.id == a.id) := by
      have hfilter := hpair.filter fun l => l.id == a.id
      simpa [hsame] using hfilter
    rw [filter_byNumber] at htwin
    exact htwin.trans List.filter_sublist
  · rw [hls] at h
    cases h

/-- Layers are refused just if two of them share a number. -/
theorem exists_error_iff {ls : List Layer} : (∃ f, ofList? ls = .error f) ↔ ¬ (ls.map Layer.id).Nodup := by
  rcases ofList?_cases ls with ⟨a, b, htwins, hls⟩ | ⟨-, r, hr, hls⟩
  · refine iff_of_true ⟨_, hls⟩ fun hnodup => ?_
    exact not_nodup_of_findTwins htwins (((perm_byNumber ls).map Layer.id).nodup_iff.2 hnodup)
  · refine iff_of_false (fun ⟨f, hf⟩ => ?_) (not_not_intro ?_)
    · rw [hls] at hf
      cases hf
    · have hperm : r.layers.Perm ls := hr ▸ perm_byNumber ls
      exact (hperm.map Layer.id).nodup_iff.1 (nodup_of_ascending r.ascending)

/-! ### Finding a layer -/

theorem find?_eq_some_iff {r : Registry} {id : Int} {l : Layer} : r.find? id = some l ↔ l ∈ r.layers ∧ l.id = id := by
  unfold find?
  constructor
  · intro h
    exact ⟨List.mem_of_find?_eq_some h, by simpa using List.find?_some h⟩
  · rintro ⟨hl, rfl⟩
    obtain ⟨m, hm⟩ : ∃ m, r.layers.find? (fun m => m.id == l.id) = some m :=
      Option.isSome_iff_exists.1 (List.find?_isSome.2 ⟨l, hl, beq_self_eq_true l.id⟩)
    have hid : m.id = l.id := by simpa using List.find?_some hm
    have hsame : m = l :=
      List.inj_on_of_nodup_map (nodup_of_ascending r.ascending) (List.mem_of_find?_eq_some hm) hl hid
    rw [hm, hsame]

theorem find?_eq_none_iff {r : Registry} {id : Int} : r.find? id = none ↔ id ∉ r.ids := by
  unfold find? ids
  rw [List.find?_eq_none, List.mem_map]
  simp

theorem get_eq_ok_iff {r : Registry} {id : Int} {l : Layer} : r.get id = .ok l ↔ r.find? id = some l := by
  unfold get
  cases r.find? id <;> simp

theorem get_eq_error_iff {r : Registry} {id : Int} {f : Failure} :
    r.get id = .error f ↔ id ∉ r.ids ∧ f = unknownFailure id := by
  rw [← find?_eq_none_iff]
  unfold get
  cases r.find? id <;> simp [eq_comm]

/-! ### A table by number -/

/-- Layers under their numbers. -/
def table (ls : List Layer) : List (Int × Layer) := ls.map fun l => (l.id, l)

/-- Layers entered in a table, one after the other; a number that is taken is refused, with the layer that has it. -/
def enter (entered : List (Int × Layer)) : List Layer → Except Failure (List (Int × Layer))
  | [] => .ok entered
  | l :: ls =>
    match entered.lookup l.id with
    | some m => .error (twinFailure m l)
    | none => enter (entered ++ [(l.id, l)]) ls

theorem lookup_table (id : Int) (ls : List Layer) : (table ls).lookup id = ls.find? fun l => l.id == id := by
  induction ls with
  | nil => rfl
  | cons l ls ih =>
    unfold table at *
    rw [List.map_cons, List.lookup_cons, List.find?_cons, ih]
    by_cases h : l.id = id
    · simp [h]
    · have hid : (l.id == id) = false := by simpa using h
      have hid' : (id == l.id) = false := by simpa using Ne.symm h
      rw [hid, hid']

/-- What is found in a registry is what is looked up in its table. -/
theorem find?_eq_lookup (r : Registry) (id : Int) : r.find? id = (table r.layers).lookup id :=
  (lookup_table id r.layers).symm

/-- Behind layers in ascending order, a table refuses what shares its number with the layer in front of it. -/
theorem enter_behind (front : List Layer) (a : Layer) (ls : List Layer) (h : InOrder (front ++ a :: ls))
    (hfront : ∀ l ∈ front, l.id < a.id) :
    enter (table (front ++ [a])) ls =
      match findTwins (a :: ls) with
      | some (x, y) => .error (twinFailure x y)
      | none => .ok (table (front ++ a :: ls)) := by
  induction ls generalizing front a with
  | nil => rfl
  | cons b rest ih =>
    have hab : a.id ≤ b.id := by
      have hback := (List.pairwise_append.1 h).2.1
      exact (List.pairwise_cons.1 hback).1 b List.mem_cons_self
    have hnone : (front.find? fun l => l.id == b.id) = none := by
      refine List.find?_eq_none.2 fun l hl => ?_
      have hlt := hfront l hl
      simp only [beq_iff_eq]
      omega
    rw [enter, lookup_table, List.find?_append, hnone, Option.none_or, List.find?_singleton, findTwins]
    by_cases hsame : a.id = b.id
    · simp [hsame]
    · have hnext : ∀ l ∈ front ++ [a], l.id < b.id := by
        intro l hl
        rcases List.mem_append.1 hl with hl | hl
        · exact Int.lt_of_lt_of_le (hfront l hl) hab
        · rw [List.mem_singleton.1 hl]
          omega
      have hrest := ih (front ++ [a]) b (by simpa using h) hnext
      have htable : table (front ++ [a]) ++ [(b.id, b)] = table (front ++ [a] ++ [b]) := by simp [table]
      simp only [hsame, htable, hrest, beq_iff_eq, if_false]
      simp

/-- **The table and the order agree**: layers are entered in a table by their numbers, in order, just if a registry can
be made of them, and are refused for the same reason. -/
theorem enter_byNumber (ls : List Layer) :
    enter [] (byNumber ls) = (ofList? ls).map fun r => table r.layers := by
  have hfind : enter [] (byNumber ls) =
      match findTwins (byNumber ls) with
      | some (x, y) => .error (twinFailure x y)
      | none => .ok (table (byNumber ls)) := by
    have horder := inOrder_byNumber ls
    cases hls : byNumber ls with
    | nil => rfl
    | cons a rest => exact enter_behind [] a rest (hls ▸ horder) (fun _ hl => nomatch hl)
  rcases ofList?_cases ls with ⟨a, b, htwins, hls⟩ | ⟨hnone, r, hr, hls⟩
  · rw [hfind, htwins, hls]
    rfl
  · rw [hfind, hnone, hls, Except.map, hr]

end LayeredFix.Registry
