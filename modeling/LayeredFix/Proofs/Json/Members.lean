import LayeredFix.Proofs.Json.Proper

/-!
# Members as they stand in a text

A text may give several members of an object one name. `HoldsMembers` says which members stand in the text of an object,
in order and with repetitions. What is read from the text has each name once, in its first place and with its last value
(`exists_members_of_parse`).
-/

namespace LayeredFix

namespace Json

variable {room fuel : Nat} {t rest : Text} {v : Json} {ms done : List (Text × Json)}

/-! ### Members of a text -/

/-- A member is read at the beginning of a text: its name, a colon and its value. -/
inductive ReadsMember (room : Nat) : Text → Text × Json → Text → Prop
  | intro {fuel : Nat} {t name r r' : Text} {v : Json} {rest : Text}
    (read_name : readString ('"' :: t) fuel [] t = .ok (name, r)) (read_colon : skipBlanks r = ':' :: r')
    (read_value : readValue fuel room (skipBlanks r') = .ok (v, rest)) : ReadsMember room ('"' :: t) (name, v) rest

/-- Members with commas between them are read at the beginning of a text, and the brace that closes the object. -/
inductive ReadsMembers (room : Nat) : Text → List (Text × Json) → Text → Prop
  | last {t r rest : Text} {m : Text × Json} : ReadsMember room t m r → skipBlanks r = '}' :: rest →
    ReadsMembers room t [m] rest
  | cons {t r r' rest : Text} {m : Text × Json} {ms : List (Text × Json)} : ReadsMember room t m r →
    skipBlanks r = ',' :: r' → ReadsMembers room (skipBlanks r') ms rest → ReadsMembers room t (m :: ms) rest

/-- The text of an object holds the members, in this order. -/
def HoldsMembers (t : Text) (ms : List (Text × Json)) : Prop :=
  ∃ room r rest, room < maxNesting ∧ skipBlanks t = '{' :: r ∧ skipBlanks rest = [] ∧
    (skipBlanks r = '}' :: rest ∧ ms = [] ∨ ReadsMembers room (skipBlanks r) ms rest)

/-- **What is read of members is what they make together**, behind the members that were read before. -/
theorem exists_readsMembers (h : readMembers fuel room done t = .ok (v, rest)) :
    ∃ ms, ReadsMembers room t ms rest ∧ v = object (Entries.ofList (done.reverse ++ ms)) := by
  induction fuel generalizing done t with
  | zero => cases h
  | succ fuel ih =>
    unfold readMembers at h
    split at h
    · split at h
      · cases h
      · rename_i hname
        split at h
        · rename_i hcolon
          split at h
          · cases h
          · rename_i hvalue
            have hmember := ReadsMember.intro hname hcolon hvalue
            split at h
            · rename_i hclose
              obtain ⟨rfl, rfl⟩ := Prod.mk.inj (Except.ok.inj h)
              exact ⟨_, .last hmember hclose, by rw [List.reverse_cons]⟩
            · rename_i hcomma
              obtain ⟨ms, hms, rfl⟩ := ih h
              exact ⟨_, .cons hmember hcomma hms, by rw [List.reverse_cons, List.append_assoc]; rfl⟩
            · cases h
        · cases h
    · cases h

/-! ### Objects -/

theorem readItems_ne_object {done : List Json} (h : readItems fuel room done t = .ok (v, rest)) : v ≠ object ms := by
  induction fuel generalizing done t with
  | zero => cases h
  | succ fuel ih =>
    unfold readItems at h
    split at h
    · cases h
    · split at h
      · obtain ⟨rfl, -⟩ := Prod.mk.inj (Except.ok.inj h)
        exact Json.noConfusion
      · exact ih h
      · cases h

theorem readScalarValue_ne_object (h : readScalarValue t = .ok (v, rest)) : v ≠ object ms := by
  have hnumber {opening : Text} {negative : Bool} {t : Text} (h : readNumber opening negative t = .ok (v, rest)) :
      v ≠ object ms := by
    obtain ⟨n, rfl, -⟩ := writable_of_readNumber h
    exact Json.noConfusion
  unfold readScalarValue at h
  dsimp only at h
  split at h
  · rename_i w v' hfind
    obtain ⟨rfl, -⟩ := Prod.mk.inj (Except.ok.inj h)
    have hmem := List.mem_of_find?_eq_some hfind
    simp only [List.mem_cons, Prod.mk.injEq, List.not_mem_nil, or_false] at hmem
    rcases hmem with ⟨-, rfl⟩ | ⟨-, rfl⟩ | ⟨-, rfl⟩ | ⟨-, rfl⟩ | ⟨-, rfl⟩ | ⟨-, rfl⟩ <;> exact Json.noConfusion
  · split at h
    · exact hnumber h
    · exact hnumber h

/-- An object is read from a brace on, empty or with its members. -/
theorem readValue_eq_object (h : readValue fuel room t = .ok (object ms, rest)) : ∃ room' r, room = room' + 1 ∧
    t = '{' :: r ∧ (skipBlanks r = '}' :: rest ∧ ms = [] ∨
      ∃ es, ReadsMembers room' (skipBlanks r) es rest ∧ ms = Entries.ofList es) := by
  cases fuel with
  | zero => cases h
  | succ fuel =>
    unfold readValue at h
    split at h
    · split at h
      · cases h
      · cases h
    · cases h
    · split at h
      · cases h
      · exact absurd rfl (readItems_ne_object h)
    · cases h
    · rename_i r room'
      refine ⟨room', r, rfl, rfl, ?_⟩
      split at h
      · rename_i hclose
        obtain ⟨hms, rfl⟩ := Prod.mk.inj (Except.ok.inj h)
        exact Or.inl ⟨hclose, (object.inj hms).symm⟩
      · obtain ⟨es, hes, heq⟩ := exists_readsMembers h
        exact Or.inr ⟨es, hes, object.inj heq⟩
    · exact absurd rfl (readScalarValue_ne_object h)

/-- **An object that is read has the names of the members in its text**, each in its first place and with its last
value. -/
theorem exists_members_of_parse (h : parse t = .ok (object ms)) : ∃ es, HoldsMembers t es ∧
    Entries.names ms = (Entries.names es).eraseDups ∧ ∀ name, Entries.get? name ms = Entries.get? name es.reverse := by
  obtain ⟨fuel, rest, hvalue, hend⟩ : ∃ fuel rest,
      readValue fuel maxNesting (skipBlanks t) = .ok (object ms, rest) ∧ skipBlanks rest = [] := by
    unfold parse at h
    split at h
    · rename_i w hread
      obtain rfl := Except.ok.inj h
      unfold read at hread
      split at hread
      · cases hread
      · split at hread
        · cases hread
        · rename_i hvalue
          split at hread
          · rename_i hend
            obtain rfl := Except.ok.inj hread
            exact ⟨_, _, hvalue, hend⟩
          · cases hread
    · cases h
  obtain ⟨room, r, hroom, hopen, ⟨hclose, rfl⟩ | ⟨es, hes, rfl⟩⟩ := readValue_eq_object hvalue
  · exact ⟨[], ⟨room, r, rest, by omega, hopen, hend, Or.inl ⟨hclose, rfl⟩⟩, rfl, fun _ => rfl⟩
  · exact ⟨es, ⟨room, r, rest, by omega, hopen, hend, Or.inr hes⟩, Entries.names_ofList es, fun name => Entries.get?_ofList name es⟩

end Json

end LayeredFix
