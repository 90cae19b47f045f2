import LayeredFix.Entries
import Mathlib.Data.List.Nodup

/-!
# Names and values of entries

What is put into entries stands under its name, and nothing else changes: the names keep their order and a new one
comes last (`names_put`), and whatever holds of the values before holds of them afterwards (`forall_mem_put`). So in
what is made of a list with repetitions the first place of a name counts and its last value (`names_ofList`,
`get?_ofList`), and entries that are merged are overridden (`overridden_merge`): the old names keep their order and the
new ones follow, and a name has its new value, or else its old one.
-/

namespace LayeredFix

namespace Entries

variable {α : Type} {name key : Text} {value : α} {es base newer : Entries α}

/-! ### Names -/

/-- The names of entries. -/
def names (es : Entries α) : List Text := es.map Prod.fst

theorem put_of_notMem (h : name ∉ names es) : put name value es = es ++ [(name, value)] := by
  induction es with
  | nil => rfl
  | cons e es ih =>
    obtain ⟨hne, hmem⟩ := not_or.1 (fun hor => h (List.mem_cons.2 hor))
    rw [put, if_neg (by simpa using Ne.symm hne), ih hmem]
    rfl

theorem names_put (name : Text) (value : α) (es : Entries α) :
    names (put name value es) = if name ∈ names es then names es else names es ++ [name] := by
  split
  · rename_i hmem
    induction es with
    | nil => cases hmem
    | cons e es ih =>
      rw [put]
      split
      · rfl
      · rename_i hne
        have hmem' := (List.mem_cons.1 hmem).resolve_left fun heq => hne (beq_iff_eq.2 heq.symm)
        exact congrArg (e.1 :: ·) (ih hmem')
  · rename_i hmem
    rw [put_of_notMem hmem]
    simp [names]

theorem nodup_put (h : (names es).Nodup) : (names (put name value es)).Nodup := by
  rw [names_put]
  split
  · exact h
  · rename_i hmem
    rw [← List.concat_eq_append]
    exact h.concat hmem

theorem nodup_merge (newer : Entries α) (h : (names base).Nodup) : (names (merge base newer)).Nodup := by
  induction newer generalizing base with
  | nil => exact h
  | cons e newer ih => exact ih (nodup_put h)

theorem nodup_ofList (es : List (Text × α)) : (names (ofList es)).Nodup := nodup_merge es List.nodup_nil

theorem eraseDups_of_nodup {ts : List Text} (h : ts.Nodup) : ts.eraseDups = ts := by
  induction ts with
  | nil => rfl
  | cons t ts ih =>
    obtain ⟨hmem, hnodup⟩ := List.nodup_cons.1 h
    have hfilter : ts.filter (fun b => !b == t) = ts := by
      refine List.filter_eq_self.2 fun b hb => ?_
      have hne : b ≠ t := ne_of_mem_of_not_mem hb hmem
      simpa using hne
    rw [List.eraseDups_cons, hfilter, ih hnodup]

/-- **Entries that are put in over others come behind them**, unless their names are there already. -/
theorem names_merge (newer : Entries α) (hbase : (names base).Nodup) :
    names (merge base newer) = (names base ++ names newer).eraseDups := by
  induction newer generalizing base with
  | nil =>
    have hnil : names ([] : Entries α) = [] := rfl
    rw [hnil, List.append_nil, eraseDups_of_nodup hbase]
    rfl
  | cons e newer ih =>
    have hstep : names (merge base (e :: newer)) = names (merge (put e.1 e.2 base) newer) := rfl
    have hcons : names (e :: newer) = e.1 :: names newer := rfl
    rw [hstep, ih (nodup_put hbase), names_put, hcons]
    split
    · rename_i hmem
      have hin : (names base).contains e.1 = true := by simpa using hmem
      rw [List.eraseDups_append, List.eraseDups_append, List.cons_removeAll, hin]
      rfl
    · rw [List.append_assoc, List.singleton_append]

/-- Of a repeated name the first place counts. -/
theorem names_ofList (es : List (Text × α)) : names (ofList es) = (names es).eraseDups :=
  names_merge es List.nodup_nil

/-! ### What is found -/

theorem mem_of_get? (h : get? name es = some value) : (name, value) ∈ es := by
  induction es with
  | nil => cases h
  | cons e es ih =>
    obtain ⟨n, v⟩ := e
    rw [get?] at h
    split at h
    · rename_i hname
      rw [← beq_iff_eq.1 hname, ← Option.some.inj h]
      exact List.mem_cons_self
    · exact List.mem_cons_of_mem _ (ih h)

theorem mem_names_of_get? (h : get? name es = some value) : name ∈ names es := List.mem_map_of_mem (mem_of_get? h)

theorem get?_of_mem (h : (names es).Nodup) {e : Text × α} (he : e ∈ es) : get? e.1 es = some e.2 := by
  induction es with
  | nil => cases he
  | cons e' es ih =>
    obtain ⟨n, v⟩ := e'
    obtain ⟨hmem, hnodup⟩ := List.nodup_cons.1 h
    rw [get?]
    rcases List.mem_cons.1 he with rfl | he
    · rw [if_pos (beq_self_eq_true n)]
    · have hin : e.1 ∈ names es := List.mem_map_of_mem he
      have hne : ¬ (n == e.1) = true := fun heq => hmem ((beq_iff_eq.1 heq).symm ▸ hin)
      rw [if_neg hne, ih hnodup he]

theorem has_eq_isSome (name : Text) (es : Entries α) : has name es = (get? name es).isSome := by
  induction es with
  | nil => rfl
  | cons e es ih =>
    unfold has at *
    rw [List.any_cons, ih, get?]
    split
    · rename_i h
      rw [h]
      rfl
    · rename_i h
      rw [Bool.not_eq_true] at h
      rw [h, Bool.false_or]

theorem has_put (h : has key es = true) : has key (put name value es) = true := by
  rw [has_eq_isSome, get?_put]
  split
  · rfl
  · rwa [← has_eq_isSome]

theorem has_put_of_ne (h : key ≠ name) (value : α) (es : Entries α) : has key (put name value es) = has key es := by
  rw [has_eq_isSome, has_eq_isSome, get?_put, if_neg h]

theorem nodup_names_reverse (h : (names es).Nodup) : (names es.reverse).Nodup := by
  unfold names at *
  rwa [List.map_reverse, List.nodup_reverse]

/-- Where all names differ, the order does not matter for what is found. -/
theorem get?_reverse (h : (names es).Nodup) (name : Text) : get? name es.reverse = get? name es := by
  refine Option.ext fun value => ⟨fun hvalue => ?_, fun hvalue => ?_⟩
  · exact get?_of_mem h (List.mem_reverse.1 (mem_of_get? hvalue))
  · exact get?_of_mem (nodup_names_reverse h) (List.mem_reverse.2 (mem_of_get? hvalue))

/-- Of a repeated name the last value counts. -/
theorem get?_ofList (name : Text) (es : List (Text × α)) : get? name (ofList es) = get? name es.reverse := by
  rw [ofList, get?_merge]
  exact Option.or_none

/-- An entry that passes a test is found among those that pass it. -/
theorem get?_filter {p : Text × α → Bool} (h : get? name es = some value) (hp : p (name, value) = true) :
    get? name (es.filter p) = some value := by
  induction es with
  | nil => cases h
  | cons e es ih =>
    obtain ⟨n, w⟩ := e
    unfold get? at h
    split at h
    · rename_i hn
      obtain rfl : n = name := by simpa using hn
      obtain rfl := Option.some.inj h
      rw [List.filter_cons_of_pos hp, get?, if_pos hn]
    · rename_i hn
      rw [List.filter_cons]
      split
      · rw [get?, if_neg hn, ih h]
      · exact ih h

theorem nodup_filter (p : Text × α → Bool) (h : (names es).Nodup) : (names (es.filter p)).Nodup :=
  h.sublist (List.filter_sublist.map Prod.fst)

/-- What is found among the entries that pass a test is found among all, and passes it. -/
theorem get?_of_filter {p : Text × α → Bool} (hnodup : (names es).Nodup) (h : get? name (es.filter p) = some value) :
    get? name es = some value ∧ p (name, value) = true := by
  obtain ⟨hmem, hp⟩ := List.mem_filter.1 (mem_of_get? h)
  exact ⟨get?_of_mem hnodup hmem, hp⟩

theorem mem_names_iff : name ∈ names es ↔ ∃ value, get? name es = some value := by
  rw [← Option.isSome_iff_exists, ← has_eq_isSome]
  simp [has, names]

theorem get?_erase_of_ne (hne : name ≠ key) (h : get? name es = some value) :
    get? name (erase key es) = some value :=
  get?_filter h (by simpa using hne)

/-! ### What is put in -/

theorem mem_put {x : Text × α} (h : x ∈ put name value es) : x = (name, value) ∨ x ∈ es := by
  induction es with
  | nil => exact Or.inl (by simpa [put] using h)
  | cons e es ih =>
    obtain ⟨n, w⟩ := e
    unfold put at h
    split at h
    · rename_i hn
      have hn' : n = name := by simpa using hn
      rcases List.mem_cons.1 h with rfl | h
      · exact Or.inl (by rw [hn'])
      · exact Or.inr (List.mem_cons_of_mem _ h)
    · rcases List.mem_cons.1 h with rfl | h
      · exact Or.inr (List.mem_cons_self ..)
      · exact (ih h).imp_right (List.mem_cons_of_mem _)

/-- What entries hold stays so where what is put in does too. -/
theorem forall_mem_put {P : α → Prop} (h : ∀ e ∈ es, P e.2) (hvalue : P value) : ∀ e ∈ put name value es, P e.2 := by
  intro e he
  rcases mem_put he with rfl | he
  · exact hvalue
  · exact h e he

theorem forall_mem_merge {P : α → Prop} (hbase : ∀ e ∈ base, P e.2) (hnewer : ∀ e ∈ newer, P e.2) :
    ∀ e ∈ merge base newer, P e.2 := by
  induction newer generalizing base with
  | nil => exact hbase
  | cons e newer ih =>
    rw [List.forall_mem_cons] at hnewer
    exact ih (forall_mem_put hbase hnewer.1) hnewer.2

theorem forall_mem_get? {P : α → Prop} (h : ∀ e ∈ es, P e.2) (hv : get? name es = some value) : P value :=
  h _ (mem_of_get? hv)

/-- An entry that is put in where it is already changes nothing. -/
theorem put_of_get? (h : get? name es = some value) : put name value es = es := by
  induction es with
  | nil => cases h
  | cons e es ih =>
    obtain ⟨n, v⟩ := e
    rw [get?] at h
    rw [put]
    split at h
    · rw [if_pos ‹_›, Option.some.inj h]
    · rw [if_neg ‹_›, ih h]

theorem merge_of_get? (h : ∀ e ∈ newer, get? e.1 base = some e.2) : merge base newer = base := by
  induction newer with
  | nil => rfl
  | cons e newer ih =>
    rw [List.forall_mem_cons] at h
    show merge (put e.1 e.2 base) newer = base
    rw [put_of_get? h.1, ih h.2]

/-- What has been merged once is there already. -/
theorem merge_merge_self (h : (names newer).Nodup) (base : Entries α) :
    merge (merge base newer) newer = merge base newer := by
  refine merge_of_get? fun e he => ?_
  rw [get?_merge, get?_reverse h, get?_of_mem h he, Option.some_or]

theorem merge_of_nodup (h : (names (base ++ newer)).Nodup) : merge base newer = base ++ newer := by
  induction newer generalizing base with
  | nil => simp [merge]
  | cons e newer ih =>
    have hsplit : base ++ e :: newer = (base ++ [e]) ++ newer := by simp
    have hmem : e.1 ∉ names base := by
      unfold names at *
      rw [List.map_append, List.nodup_append] at h
      exact fun hin => h.2.2 _ hin _ (by simp) rfl
    show merge (put e.1 e.2 base) newer = _
    rw [put_of_notMem hmem, hsplit]
    exact ih (hsplit ▸ h)

/-- Entries whose names all differ are taken as they are. -/
theorem ofList_of_nodup (h : (names es).Nodup) : ofList es = es := merge_of_nodup h

/-! ### Overriding -/

/-- The entries `es` are the entries `old` overridden by the entries `newer`. -/
structure Overridden (old newer es : Entries α) : Prop where
  /-- The old names keep their order, and names that were not there follow. -/
  names : names es = names old ++ (names newer).removeAll (names old)
  /-- A name has its new value, or else its old one. -/
  value : ∀ name, get? name es = (get? name newer).or (get? name old)

/-- **Merging overrides**, whatever the old entries are. -/
theorem overridden_merge {old : Entries α} (hold : (Entries.names old).Nodup) (hnewer : (Entries.names newer).Nodup) :
    Overridden old newer (merge old newer) := by
  have hfollow : ((Entries.names newer).removeAll (Entries.names old)).Nodup := hnewer.filter _
  refine ⟨?_, fun name => ?_⟩
  · rw [names_merge newer hold, List.eraseDups_append, eraseDups_of_nodup hold, eraseDups_of_nodup hfollow]
  · rw [get?_merge, get?_reverse hnewer]

end Entries

end LayeredFix
