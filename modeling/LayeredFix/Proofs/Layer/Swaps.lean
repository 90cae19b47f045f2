import LayeredFix.Proofs.Layer.Registry

/-!
# Swapping passes in a registry

Giving a layer another pass keeps the numbers and everything else about the layers (`withTransform_eq`). So swaps for
different numbers commute, of swaps for the same number the last one wins, and after any row of swaps each layer makes
the pass that it was given last (`withTransforms_eq`). A registry is a value: the one that a swap starts from stays as it
was. Together with what holds of a registry when it is made this is `registry_invariant`.
-/

namespace LayeredFix.Registry

/-! ### One swap -/

theorem ascending_map_swap (r : Registry) (id : Int) (f : Transform) :
    (r.layers.map (swap id f)).Pairwise fun a b => a.id < b.id := by
  simpa only [List.pairwise_map, id_swap] using r.ascending

/-- The registry in which the layer with a number, if there is one, makes another pass. -/
def swapped (r : Registry) (id : Int) (f : Transform) : Registry := ⟨r.layers.map (swap id f), ascending_map_swap r id f⟩

theorem swap_of_eq {id : Int} (f : Transform) {l : Layer} (h : l.id = id) : swap id f l = { l with transform := f } :=
  if_pos (beq_iff_eq.2 h)

theorem swap_of_ne {id : Int} (f : Transform) {l : Layer} (h : l.id ≠ id) : swap id f l = l :=
  if_neg (by simpa using h)

@[simp] theorem ids_swapped (r : Registry) (id : Int) (f : Transform) : (r.swapped id f).ids = r.ids := by
  unfold ids swapped
  rw [List.map_map]
  exact List.map_congr_left fun l _ => id_swap id f l

/-- A swap is made just if there is a layer with the number. -/
theorem withTransform_eq (r : Registry) (id : Int) (f : Transform) :
    r.withTransform id f = if id ∈ r.ids then .ok (r.swapped id f) else .error (unknownFailure id) := by
  unfold withTransform
  cases hget : r.get id with
  | error e =>
    obtain ⟨hid, rfl⟩ := get_eq_error_iff.1 hget
    rw [if_neg hid]
  | ok l =>
    have hid : id ∈ r.ids := by
      by_contra hid
      rw [get_eq_error_iff.2 ⟨hid, rfl⟩] at hget
      cases hget
    rw [if_pos hid]
    rfl

/-- Other layers are found as before. -/
theorem find?_swapped_of_ne (r : Registry) {id other : Int} (f : Transform) (h : other ≠ id) :
    (r.swapped id f).find? other = r.find? other := by
  refine Option.ext fun l => ?_
  rw [find?_eq_some_iff, find?_eq_some_iff]
  refine and_congr_left fun hid => ?_
  have hne : l.id ≠ id := hid ▸ h
  constructor
  · intro hl
    obtain ⟨m, hm, rfl⟩ := List.mem_map.1 hl
    rw [id_swap] at hne
    rwa [swap_of_ne f hne]
  · exact fun hl => List.mem_map.2 ⟨l, hl, swap_of_ne f hne⟩

/-- The layer with the number is found with the other pass. -/
theorem find?_swapped_self {r : Registry} {id : Int} (f : Transform) {l : Layer} (h : r.find? id = some l) :
    (r.swapped id f).find? id = some { l with transform := f } := by
  obtain ⟨hl, hid⟩ := find?_eq_some_iff.1 h
  exact find?_eq_some_iff.2 ⟨List.mem_map.2 ⟨l, hl, swap_of_eq f hid⟩, hid⟩

theorem swapped_comm (r : Registry) {i j : Int} (f g : Transform) (h : i ≠ j) :
    (r.swapped i f).swapped j g = (r.swapped j g).swapped i f := by
  refine eq_of_layers_eq ?_
  show (r.layers.map (swap i f)).map (swap j g) = (r.layers.map (swap j g)).map (swap i f)
  rw [List.map_map, List.map_map]
  refine List.map_congr_left fun l _ => ?_
  show swap j g (swap i f l) = swap i f (swap j g l)
  by_cases hi : l.id = i
  · have hj : l.id ≠ j := hi ▸ h
    rw [swap_of_ne g hj, swap_of_ne g (by rwa [id_swap])]
  · rw [swap_of_ne f hi, swap_of_ne f (by rwa [id_swap])]

theorem swapped_swapped (r : Registry) (id : Int) (f g : Transform) :
    (r.swapped id f).swapped id g = r.swapped id g := by
  refine eq_of_layers_eq ?_
  show (r.layers.map (swap id f)).map (swap id g) = r.layers.map (swap id g)
  rw [List.map_map]
  refine List.map_congr_left fun l _ => ?_
  show swap id g (swap id f l) = swap id g l
  by_cases h : l.id = id
  · rw [swap_of_eq g (by rwa [id_swap]), swap_of_eq f h, swap_of_eq g h]
  · rw [swap_of_ne f h]

/-! ### Rows of swaps -/

/-- Layers given other passes, one after the other. -/
def withTransforms (r : Registry) (swaps : List (Int × Transform)) : Except Failure Registry :=
  swaps.foldlM (fun r s => r.withTransform s.1 s.2) r

/-- The pass that a layer was given last, or else its own. -/
def lastPass (swaps : List (Int × Transform)) (l : Layer) : Transform :=
  (swaps.reverse.lookup l.id).getD l.transform

theorem lastPass_cons (id : Int) (f : Transform) (swaps : List (Int × Transform)) (l : Layer) :
    lastPass ((id, f) :: swaps) l = lastPass swaps (swap id f l) := by
  unfold lastPass
  rw [List.reverse_cons, List.lookup_append, id_swap]
  cases swaps.reverse.lookup l.id with
  | some g => rfl
  | none =>
    by_cases h : l.id = id
    · simp [swap_of_eq f h, h]
    · have hid : (l.id == id) = false := by simpa using h
      simp [swap_of_ne f h, List.lookup_cons, hid]

/-- **After a row of swaps each layer makes the pass that it was given last.** -/
theorem withTransforms_eq {r : Registry} {swaps : List (Int × Transform)} (h : ∀ s ∈ swaps, s.1 ∈ r.ids) :
    ∃ r' : Registry, r.withTransforms swaps = .ok r' ∧
      r'.layers = r.layers.map fun l => { l with transform := lastPass swaps l } := by
  induction swaps generalizing r with
  | nil => exact ⟨r, rfl, (List.map_id r.layers).symm⟩
  | cons s swaps ih =>
    obtain ⟨id, f⟩ := s
    rw [List.forall_mem_cons] at h
    obtain ⟨hid, hswaps⟩ := h
    obtain ⟨r', hr', hlayers⟩ := ih (r := r.swapped id f) (by simpa using hswaps)
    refine ⟨r', ?_, ?_⟩
    · unfold withTransforms at *
      rw [List.foldlM_cons, withTransform_eq, if_pos hid]
      exact hr'
    · rw [hlayers]
      show (r.layers.map (swap id f)).map _ = _
      rw [List.map_map]
      refine List.map_congr_left fun l _ => ?_
      show { swap id f l with transform := lastPass swaps (swap id f l) } = _
      rw [← lastPass_cons]
      by_cases hl : l.id = id
      · rw [swap_of_eq f hl]
      · rw [swap_of_ne f hl]

/-! ### The invariant -/

/-- What a registry says of the layers in it. -/
structure Lawful (r : Registry) : Prop where
  /-- The layers are gone through in ascending order. -/
  ascending : r.toList.Pairwise fun a b => a.id < b.id
  /-- Asking for a number gives the one layer that has it. -/
  get_eq_ok_iff : ∀ id l, r.get id = .ok l ↔ l ∈ r.toList ∧ l.id = id
  /-- Asking for a number fails just if no layer has it. -/
  get_eq_error_iff : ∀ id f, r.get id = .error f ↔ (∀ l ∈ r.toList, l.id ≠ id) ∧ f = unknownFailure id
  /-- A number is there just if asking for it gives a layer. -/
  contains_iff : ∀ id, r.contains id = true ↔ ∃ l, r.get id = .ok l
  /-- What is selected keeps its order. -/
  select_sublist : ∀ wanted, (r.select wanted).Sublist r.toList
  /-- What is selected are the layers whose numbers are asked for. -/
  mem_select_iff : ∀ wanted l, l ∈ r.select wanted ↔ l ∈ r.toList ∧ l.id ∈ wanted
  /-- A table by number says the same as the registry. -/
  lookup_table : ∀ id, (table r.toList).lookup id = (r.get id).toOption

theorem lawful (r : Registry) : r.Lawful where
  ascending := r.ascending
  get_eq_ok_iff id l := get_eq_ok_iff.trans find?_eq_some_iff
  get_eq_error_iff id f := by
    rw [Registry.get_eq_error_iff]
    refine and_congr_left fun _ => ?_
    unfold ids toList
    simp
  contains_iff id := by
    unfold contains
    rw [Option.isSome_iff_exists]
    exact exists_congr fun l => Registry.get_eq_ok_iff.symm
  select_sublist wanted := List.filter_sublist
  mem_select_iff wanted l := by
    unfold select
    rw [List.mem_filter, List.contains_iff_mem]
    rfl
  lookup_table id := by
    unfold toList
    rw [← find?_eq_lookup, get]
    cases r.find? id <;> rfl

/-- What a registry made of some layers holds. -/
structure MadeOf (r : Registry) (ls : List Layer) : Prop where
  /-- It holds these layers. -/
  perm : r.toList.Perm ls
  /-- In any other order they make the same registry. -/
  anyOrder : ∀ ls', ls'.Perm ls → ofList? ls' = .ok r
  /-- In ascending order they can be entered in a table by their numbers. -/
  entered : enter [] (byNumber ls) = .ok (table r.toList)

theorem madeOf {ls : List Layer} {r : Registry} (h : ofList? ls = .ok r) : r.MadeOf ls where
  perm := ofList?_eq_ok_iff.1 h
  anyOrder _ hperm := ofList?_eq_ok_iff.2 ((ofList?_eq_ok_iff.1 h).trans hperm.symm)
  entered := by
    rw [enter_byNumber, h]
    rfl

/-- What a registry becomes when the layer with a number is given another pass. -/
structure Swapped (r : Registry) (id : Int) (f : Transform) (r' : Registry) : Prop where
  lawful : r'.Lawful
  /-- It is what is made of the layers, the one with the number replaced. -/
  made : ofList? (r.toList.map (swap id f)) = .ok r'
  /-- Numbers, names and descriptions stay. -/
  described : r'.toList.map (fun l => (l.id, l.name, l.description)) =
    r.toList.map fun l => (l.id, l.name, l.description)
  /-- The layer with the number makes the other pass. -/
  get_self : ∀ l, r.get id = .ok l → r'.get id = .ok { l with transform := f }
  /-- All other layers stay. -/
  get_other : ∀ other, other ≠ id → r'.get other = r.get other

theorem swapped_spec (r : Registry) (id : Int) (f : Transform) : r.Swapped id f (r.swapped id f) where
  lawful := (r.swapped id f).lawful
  made := ofList?_eq_ok_iff.2 (List.Perm.refl _)
  described := by
    show (r.layers.map (swap id f)).map _ = r.layers.map _
    rw [List.map_map]
    refine List.map_congr_left fun l _ => ?_
    by_cases h : l.id = id
    · simp [swap_of_eq f h]
    · simp [swap_of_ne f h]
  get_self l hl := get_eq_ok_iff.2 (find?_swapped_self f (get_eq_ok_iff.1 hl))
  get_other other hne := by rw [get, get, find?_swapped_of_ne r f hne]

/-- What swaps do to a registry. -/
structure Swaps (r : Registry) : Prop where
  /-- A swap fails just if no layer has the number. -/
  error_iff : ∀ id f e, r.withTransform id f = .error e ↔ id ∉ r.ids ∧ e = unknownFailure id
  /-- Otherwise it changes the pass of the layer with the number, and nothing else. -/
  swapped : ∀ id f r', r.withTransform id f = .ok r' → r.Swapped id f r'
  /-- Swaps for different numbers commute. -/
  comm : ∀ i j f g, i ≠ j → i ∈ r.ids → j ∈ r.ids →
    ∃ r', (r.withTransform i f >>= fun s => s.withTransform j g) = .ok r' ∧
      (r.withTransform j g >>= fun s => s.withTransform i f) = .ok r'
  /-- Of two swaps for the same number the last one wins. -/
  last : ∀ id f g, (r.withTransform id f >>= fun s => s.withTransform id g) = r.withTransform id g
  /-- After any row of swaps each layer makes the pass that it was given last. -/
  row : ∀ swaps : List (Int × Transform), (∀ s ∈ swaps, s.1 ∈ r.ids) →
    ∃ r' : Registry, r.withTransforms swaps = .ok r' ∧
      r'.toList = r.toList.map fun l => { l with transform := lastPass swaps l }

theorem swaps (r : Registry) : r.Swaps where
  error_iff id f e := by
    rw [withTransform_eq]
    split <;> simp_all [eq_comm]
  swapped id f r' h := by
    rw [withTransform_eq] at h
    split at h
    · obtain rfl := Except.ok.inj h
      exact r.swapped_spec id f
    · cases h
  comm i j f g hne hi hj := by
    refine ⟨(r.swapped i f).swapped j g, ?_, ?_⟩
    · rw [withTransform_eq, if_pos hi]
      show (r.swapped i f).withTransform j g = _
      rw [withTransform_eq, ids_swapped, if_pos hj]
    · rw [withTransform_eq, if_pos hj]
      show (r.swapped j g).withTransform i f = _
      rw [withTransform_eq, ids_swapped, if_pos hi, r.swapped_comm f g hne]
  last id f g := by
    rw [withTransform_eq, withTransform_eq]
    split
    · rename_i hid
      show (r.swapped id f).withTransform id g = _
      rw [withTransform_eq, ids_swapped, if_pos hid, swapped_swapped]
    · rfl
  row _ h := withTransforms_eq h

end Registry

/-- **A registry has one layer for a number.** Layers are refused just if two of them share a number. Otherwise they are
gone through in ascending order, whatever order they came in, and asking for a number, looking for it, selecting by
numbers and a table by number agree on them. Giving a layer another pass keeps all of this and changes nothing but that
pass. -/
theorem registry_invariant :
    (∀ ls : List Layer,
      ((∃ f, Registry.ofList? ls = .error f) ↔ ¬ (ls.map Layer.id).Nodup) ∧
      (∀ f, Registry.ofList? ls = .error f →
        ∃ a b, [a, b].Sublist ls ∧ a.id = b.id ∧ f = Registry.twinFailure a b) ∧
      ∀ r, Registry.ofList? ls = .ok r → r.MadeOf ls) ∧
    ∀ r : Registry, r.Lawful ∧ r.Swaps :=
  ⟨fun _ => ⟨Registry.exists_error_iff, fun _ => Registry.ofList?_eq_error, fun _ => Registry.madeOf⟩,
    fun r => ⟨r.lawful, r.swaps⟩⟩

/-- Three layers out of order. -/
def scrambledLayers : List Layer :=
  [{ id := 3, name := ['c'], description := [], transform := .ok },
   { id := -1, name := ['a'], description := [], transform := .ok },
   { id := 2, name := ['b'], description := [], transform := .ok }]

/-- The same layers in order. -/
def unscrambledRegistry : Registry where
  layers :=
    [{ id := -1, name := ['a'], description := [], transform := .ok },
     { id := 2, name := ['b'], description := [], transform := .ok },
     { id := 3, name := ['c'], description := [], transform := .ok }]
  ascending := by decide

/-- The layers can be put in order, but not if one of them comes twice; and two of them can be given passes that fail. -/
theorem registry_invariant_scrambled :
    (∃ f, Registry.ofList? (scrambledLayers ++ scrambledLayers.take 1) = .error f) ∧
      Registry.ofList? scrambledLayers = .ok unscrambledRegistry ∧ unscrambledRegistry.MadeOf scrambledLayers ∧
      (2 : Int) ≠ 3 ∧ 2 ∈ unscrambledRegistry.ids ∧ 3 ∈ unscrambledRegistry.ids ∧
      ∃ r', (unscrambledRegistry.withTransform 2 (fun _ => .error default) >>= fun s =>
          s.withTransform 3 fun _ => .error default) = .ok r' ∧
        (unscrambledRegistry.withTransform 3 (fun _ => .error default) >>= fun s =>
          s.withTransform 2 fun _ => .error default) = .ok r' :=
  have hmade : Registry.ofList? scrambledLayers = .ok unscrambledRegistry := rfl
  ⟨(registry_invariant.1 _).1.2 (by decide), hmade, (registry_invariant.1 scrambledLayers).2.2 _ hmade, by decide,
    by decide, by decide, (registry_invariant.2 unscrambledRegistry).2.comm 2 3 _ _ (by decide) (by decide) (by decide)⟩

end LayeredFix
