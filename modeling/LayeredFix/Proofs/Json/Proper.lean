import LayeredFix.Proofs.Entries
import LayeredFix.Proofs.Json.RoundTrip

/-!
# What is read from JSON

Whatever a reader gives is `Proper`: it nests no deeper than the reader goes, its numbers can be written, and each name
stands once in every object. So it is read back from what is written for it (`Proper.parse_render`), and nothing that
has been read gets lost by being written.
-/

namespace LayeredFix

namespace Json

/-- A value that can be written, with each name once in every object. -/
inductive Proper : Nat → Json → Prop
  | null {room : Nat} : Proper room null
  | bool {room : Nat} (b : Bool) : Proper room (bool b)
  | number {room : Nat} {n : Number} : Writable n → Proper room (number n)
  | text {room : Nat} (t : Text) : Proper room (text t)
  | list {room : Nat} {xs : List Json} : (∀ x ∈ xs, Proper room x) → Proper (room + 1) (list xs)
  | object {room : Nat} {ms : List (Text × Json)} :
    (Entries.names ms).Nodup → (∀ m ∈ ms, Proper room m.2) → Proper (room + 1) (object ms)

variable {room : Nat} {v : Json}

theorem Proper.fits (h : Proper room v) : Fits room v := by
  induction h with
  | null => exact .null
  | bool b => exact .bool b
  | number hn => exact .number hn
  | text t => exact .text t
  | list _ ih => exact .list ih
  | object _ _ ih => exact .object ih

theorem uniqueItems_of_forall {xs : List Json} (h : ∀ x ∈ xs, x.uniqueNames = x) : uniqueItems xs = xs := by
  induction xs with
  | nil => rfl
  | cons x xs ih =>
    rw [List.forall_mem_cons] at h
    rw [uniqueItems, h.1, ih h.2]

theorem uniqueMembers_of_forall {ms : List (Text × Json)} (h : ∀ m ∈ ms, m.2.uniqueNames = m.2) :
    uniqueMembers ms = ms := by
  induction ms with
  | nil => rfl
  | cons m ms ih =>
    rw [List.forall_mem_cons] at h
    rw [uniqueMembers, h.1, ih h.2]

theorem Proper.uniqueNames_eq (h : Proper room v) : v.uniqueNames = v := by
  induction h with
  | null | bool | number | text => rfl
  | list _ ih => rw [uniqueNames, uniqueItems_of_forall ih]
  | object hnames _ ih => rw [uniqueNames, uniqueMembers_of_forall ih, Entries.ofList_of_nodup hnames]

/-- A value without repeated names is read back as it is. -/
theorem Proper.parse_render (h : Proper maxNesting v) : parse (render v) = .ok v := by
  rw [Json.parse_render h.fits, h.uniqueNames_eq]

/-- The members that have been read make a proper object. -/
theorem Proper.ofList {ms : List (Text × Json)} (h : ∀ m ∈ ms, Proper room m.2) :
    Proper (room + 1) (.object (Entries.ofList ms)) :=
  .object (Entries.nodup_ofList ms) (Entries.forall_mem_merge (by simp) h)

section
variable {ms newer : Entries Json}

theorem Proper.put {value : Json} (h : Proper (room + 1) (.object ms)) (name : Text) (hvalue : Proper room value) :
    Proper (room + 1) (.object (Entries.put name value ms)) := by
  cases h with
  | object hnames hms => exact .object (Entries.nodup_put hnames) (Entries.forall_mem_put hms hvalue)

theorem Proper.merge (h : Proper (room + 1) (.object ms)) (hnewer : ∀ m ∈ newer, Proper room m.2) :
    Proper (room + 1) (.object (Entries.merge ms newer)) := by
  cases h with
  | object hnames hms => exact .object (Entries.nodup_merge newer hnames) (Entries.forall_mem_merge hms hnewer)

theorem Proper.value {name : Text} (h : Proper (room + 1) (.object ms)) (hv : Entries.get? name ms = some v) :
    Proper room v := by
  cases h with
  | object _ hms => exact Entries.forall_mem_get? hms hv

end

/-! ### What is read is proper -/

theorem proper_of_readScalarValue {t r : Text} (h : readScalarValue t = .ok (v, r)) : Proper room v := by
  have hwords {w : String} (hw : (w, v) ∈ [("null", null), ("true", bool true), ("false", bool false),
      ("NaN", number (.real .nan)), ("Infinity", number (.real (.infinity false))),
      ("-Infinity", number (.real (.infinity true)))]) : Proper room v := by
    simp only [List.mem_cons, Prod.mk.injEq, List.not_mem_nil, or_false] at hw
    rcases hw with ⟨-, rfl⟩ | ⟨-, rfl⟩ | ⟨-, rfl⟩ | ⟨-, rfl⟩ | ⟨-, rfl⟩ | ⟨-, rfl⟩
    · exact .null
    · exact .bool _
    · exact .bool _
    · exact .number trivial
    · exact .number trivial
    · exact .number trivial
  have hnumber {opening : Text} {negative : Bool} {t : Text} (h : readNumber opening negative t = .ok (v, r)) :
      Proper room v := by
    obtain ⟨n, rfl, hn⟩ := writable_of_readNumber h
    exact .number hn
  unfold readScalarValue at h
  dsimp only at h
  split at h
  · rename_i w v' hfind
    obtain ⟨rfl, -⟩ := Prod.mk.inj (Except.ok.inj h)
    exact hwords (List.mem_of_find?_eq_some hfind)
  · split at h
    · exact hnumber h
    · exact hnumber h

/-- What the readers give with some fuel is proper. -/
structure ReadsProper (fuel : Nat) : Prop where
  value : ∀ {room t v r}, readValue fuel room t = .ok (v, r) → Proper room v
  items : ∀ {room done t v r}, (∀ x ∈ done, Proper room x) → readItems fuel room done t = .ok (v, r) →
    Proper (room + 1) v
  members : ∀ {room done t v r}, (∀ m ∈ done, Proper room m.2) → readMembers fuel room done t = .ok (v, r) →
    Proper (room + 1) v

theorem proper_of_readValue {fuel : Nat} (ih : ReadsProper fuel) {t r : Text}
    (h : readValue (fuel + 1) room t = .ok (v, r)) : Proper room v := by
  unfold readValue at h
  split at h
  · split at h
    · cases h
    · obtain ⟨rfl, -⟩ := Prod.mk.inj (Except.ok.inj h)
      exact .text _
  · cases h
  · split at h
    · obtain ⟨rfl, -⟩ := Prod.mk.inj (Except.ok.inj h)
      exact .list (by simp)
    · exact ih.items (by simp) h
  · cases h
  · split at h
    · obtain ⟨rfl, -⟩ := Prod.mk.inj (Except.ok.inj h)
      exact .object List.nodup_nil (by simp)
    · exact ih.members (by simp) h
  · exact proper_of_readScalarValue h

theorem proper_of_readItems {fuel : Nat} (ih : ReadsProper fuel) {done : List Json} (hdone : ∀ x ∈ done, Proper room x)
    {t r : Text} (h : readItems (fuel + 1) room done t = .ok (v, r)) : Proper (room + 1) v := by
  unfold readItems at h
  split at h
  · cases h
  · rename_i x rest hx
    have hall : ∀ y ∈ x :: done, Proper room y := List.forall_mem_cons.2 ⟨ih.value hx, hdone⟩
    split at h
    · obtain ⟨rfl, -⟩ := Prod.mk.inj (Except.ok.inj h)
      exact .list fun y hy => hall y (List.mem_reverse.1 hy)
    · exact ih.items hall h
    · cases h

theorem proper_of_readMembers {fuel : Nat} (ih : ReadsProper fuel) {done : Entries Json}
    (hdone : ∀ m ∈ done, Proper room m.2) {t r : Text} (h : readMembers (fuel + 1) room done t = .ok (v, r)) :
    Proper (room + 1) v := by
  unfold readMembers at h
  split at h
  · split at h
    · cases h
    · rename_i name rest hname
      split at h
      · split at h
        · cases h
        · rename_i x rest hx
          have hall : ∀ m ∈ (name, x) :: done, Proper room m.2 := List.forall_mem_cons.2 ⟨ih.value hx, hdone⟩
          split at h
          · obtain ⟨rfl, -⟩ := Prod.mk.inj (Except.ok.inj h)
            exact .ofList fun m hm => hall m (List.mem_reverse.1 hm)
          · exact ih.members hall h
          · cases h
      · cases h
  · cases h

/-- **Whatever is read is proper.** -/
theorem readsProper (fuel : Nat) : ReadsProper fuel := by
  induction fuel with
  | zero =>
    refine ⟨?_, ?_, ?_⟩
    · intro _ _ _ _ h
      cases h
    · intro _ _ _ _ _ _ h
      cases h
    · intro _ _ _ _ _ _ h
      cases h
  | succ fuel ih =>
    exact ⟨proper_of_readValue ih, fun hdone h => proper_of_readItems ih hdone h,
      fun hdone h => proper_of_readMembers ih hdone h⟩

theorem proper_of_parse {t : Text} (h : parse t = .ok v) : Proper maxNesting v := by
  unfold parse at h
  split at h
  · rename_i w hread
    obtain rfl := Except.ok.inj h
    unfold read at hread
    split at hread
    · cases hread
    · split at hread
      · cases hread
      · rename_i hvalue
        split at hread
        · obtain rfl := Except.ok.inj hread
          exact (readsProper _).value hvalue
        · cases hread
  · cases h

end Json

end LayeredFix
