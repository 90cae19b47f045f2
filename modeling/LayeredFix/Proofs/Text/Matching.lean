import LayeredFix.Text.Pattern.Search

/-!
# What a pattern matches

A place is an end of a match when the characters between are a stretch that the pattern allows. The lemmas here say
so for each kind of pattern (`mem_ends_one`, `mem_ends_many`, ...), so that a question about a match becomes one about
how the text ahead is put together. The first of the ends is the match (`hitAt_eq`).

Most patterns look only at what is ahead (`isForward`); what they match does not depend on what has been read
(`ends_moved`).
-/

namespace LayeredFix

namespace Place

@[simp] theorem advance_nil (s : Place) : s.advance [] = s := by
  simp [advance]

theorem advance_append (u v : Text) (s : Place) : (s.advance u).advance v = s.advance (u ++ v) := by
  simp [advance, Nat.add_assoc]

@[simp] theorem ahead_advance (w : Text) (s : Place) : (s.advance w).ahead = s.ahead.drop w.length := rfl

@[simp] theorem behind_advance (w : Text) (s : Place) : (s.advance w).behind = w.reverse ++ s.behind := rfl

@[simp] theorem groups_advance (w : Text) (s : Place) : (s.advance w).groups = s.groups := rfl

theorem mem_reach {ok : Char → Bool} {groups : List (Nat × Stretch)} {e : Place} (t : Text) :
    ∀ (index : Nat) (behind : Text) (found : List Place),
      e ∈ reach ok index behind groups found t ↔
        e ∈ found ∨ ∃ w rest, (∀ c ∈ w, ok c = true) ∧ t = w ++ rest ∧
          e = ⟨index + w.length, w.reverse ++ behind, rest, groups⟩ := by
  induction t with
  | nil =>
    intro i b found
    rw [reach, List.mem_cons]
    constructor
    · rintro (rfl | h)
      · exact Or.inr ⟨[], [], by simp⟩
      · exact Or.inl h
    · rintro (h | ⟨w, rest, -, ht, rfl⟩)
      · exact Or.inr h
      · obtain ⟨rfl, rfl⟩ := List.append_eq_nil_iff.1 ht.symm
        exact Or.inl rfl
  | cons c t ih =>
    intro i b found
    rw [reach]
    split
    · rename_i hc
      rw [ih, List.mem_cons]
      constructor
      · rintro ((rfl | h) | ⟨w, rest, hw, rfl, rfl⟩)
        · exact Or.inr ⟨[], c :: t, by simp⟩
        · exact Or.inl h
        · refine Or.inr ⟨c :: w, rest, ?_, rfl, by simp [Nat.add_assoc, Nat.add_comm 1]⟩
          rintro d (_ | ⟨_, hd⟩)
          · exact hc
          · exact hw d hd
      · rintro (h | ⟨w, rest, hw, ht, rfl⟩)
        · exact Or.inl (Or.inr h)
        · cases w with
          | nil =>
            rw [List.nil_append] at ht
            exact Or.inl (Or.inl (by simp [ht]))
          | cons d w =>
            obtain ⟨rfl, rfl⟩ := List.cons.inj ht
            exact Or.inr ⟨w, rest, fun e he => hw e (List.mem_cons_of_mem _ he), rfl,
              by simp [Nat.add_assoc, Nat.add_comm 1]⟩
    · rename_i hc
      rw [List.mem_cons]
      constructor
      · rintro (rfl | h)
        · exact Or.inr ⟨[], c :: t, by simp⟩
        · exact Or.inl h
      · rintro (h | ⟨w, rest, hw, ht, rfl⟩)
        · exact Or.inr h
        · cases w with
          | nil =>
            rw [List.nil_append] at ht
            exact Or.inl (by simp [ht])
          | cons d w =>
            obtain ⟨rfl, rfl⟩ := List.cons.inj ht
            exact absurd (hw c (List.mem_cons_self ..)) hc

/-- The places reached by reading characters of a class. -/
theorem mem_farthest {ok : Char → Bool} {s e : Place} :
    e ∈ s.farthest ok ↔ ∃ w rest, (∀ c ∈ w, ok c = true) ∧ s.ahead = w ++ rest ∧ e = s.advance w := by
  unfold farthest
  rw [mem_reach]
  constructor
  · rintro (h | ⟨w, rest, hw, ha, rfl⟩)
    · cases h
    · exact ⟨w, rest, hw, ha, by simp [advance, ha]⟩
  · rintro ⟨w, rest, hw, ha, rfl⟩
    exact Or.inr ⟨w, rest, hw, ha, by simp [advance, ha]⟩

theorem head?_reach {ok : Char → Bool} {groups : List (Nat × Stretch)} (t : Text) :
    ∀ (index : Nat) (behind : Text) (found : List Place), ∃ w rest, t = w ++ rest ∧
      (reach ok index behind groups found t).head? = some ⟨index + w.length, w.reverse ++ behind, rest, groups⟩ ∧
      ∀ c, rest.head? = some c → ok c = false := by
  induction t with
  | nil => exact fun i b found => ⟨[], [], rfl, rfl, by simp⟩
  | cons c t ih =>
    intro i b found
    rw [reach]
    split
    · obtain ⟨w, rest, rfl, hhead, hrest⟩ := ih (i + 1) (c :: b) (⟨i, b, c :: t, groups⟩ :: found)
      refine ⟨c :: w, rest, rfl, ?_, hrest⟩
      rw [hhead]
      simp [Nat.add_assoc, Nat.add_comm 1]
    · rename_i hc
      exact ⟨[], c :: t, rfl, rfl, by simpa using hc⟩

/-- The farthest place comes first. -/
theorem head?_farthest (ok : Char → Bool) (s : Place) : ∃ w rest, s.ahead = w ++ rest ∧
    (s.farthest ok).head? = some (s.advance w) ∧ ∀ c, rest.head? = some c → ok c = false := by
  obtain ⟨w, rest, ha, hhead, hrest⟩ := @head?_reach ok s.groups s.ahead s.index s.behind []
  exact ⟨w, rest, ha, by rw [farthest, hhead]; simp [advance, ha], hrest⟩

/-- The nearest place with an answer is one behind characters of the class, with no answer at the places before it. -/
theorem tryNearest_eq_some {α : Type} {ok : Char → Bool} {k : Place → Option α} {groups : List (Nat × Stretch)} {a : α}
    (t : Text) : ∀ (index : Nat) (behind : Text), tryNearest ok k index behind groups t = some a →
      ∃ w rest, t = w ++ rest ∧ k ⟨index + w.length, w.reverse ++ behind, rest, groups⟩ = some a ∧
        ∀ u v, w = u ++ v → v ≠ [] → k ⟨index + u.length, u.reverse ++ behind, v ++ rest, groups⟩ = none := by
  have hhere {i : Nat} {b t : Text} (h : k ⟨i, b, t, groups⟩ = some a) : ∃ w rest, t = w ++ rest ∧
      k ⟨i + w.length, w.reverse ++ b, rest, groups⟩ = some a ∧
        ∀ u v, w = u ++ v → v ≠ [] → k ⟨i + u.length, u.reverse ++ b, v ++ rest, groups⟩ = none :=
    ⟨[], t, rfl, h, fun u v hw hne => absurd (List.append_eq_nil_iff.1 hw.symm).2 hne⟩
  induction t with
  | nil => exact fun i b h => hhere h
  | cons c t ih =>
    intro i b h
    rw [tryNearest] at h
    split at h
    · rename_i hfirst
      exact hhere (hfirst.trans h)
    · rename_i hnone
      split at h
      · obtain ⟨w, rest, rfl, hw, hbefore⟩ := ih (i + 1) (c :: b) h
        refine ⟨c :: w, rest, rfl, by simpa [Nat.add_assoc, Nat.add_comm 1] using hw, fun u v huv hne => ?_⟩
        rcases u with _ | ⟨d, u⟩
        · obtain rfl : c :: w = v := huv
          exact hnone
        · obtain ⟨rfl, rfl⟩ := List.cons.inj huv
          simpa [Nat.add_assoc, Nat.add_comm 1] using hbefore u v rfl hne
      · cases h

/-- From `s` the characters `w` lead to `e`. -/
structure Reads (s : Place) (w : Text) (e : Place) : Prop where
  ahead : s.ahead = w ++ e.ahead
  index : e.index = s.index + w.length
  behind : e.behind = w.reverse ++ s.behind

theorem Reads.refl (s : Place) : s.Reads [] s := ⟨rfl, rfl, rfl⟩

theorem Reads.trans {s m e : Place} {u v : Text} (h : s.Reads u m) (h' : m.Reads v e) : s.Reads (u ++ v) e where
  ahead := by rw [h.ahead, h'.ahead, List.append_assoc]
  index := by rw [h'.index, h.index, List.length_append, Nat.add_assoc]
  behind := by rw [h'.behind, h.behind, List.reverse_append, List.append_assoc]

theorem reads_advance {s : Place} {w rest : Text} (ha : s.ahead = w ++ rest) : s.Reads w (s.advance w) :=
  ⟨by simp [ha], rfl, rfl⟩

theorem Reads.text_stretch {s e : Place} {w : Text} (h : s.Reads w e) : (s.stretch e).text = w := by
  simp [stretch, Stretch.text, h.ahead, h.index]

/-! ### Texts with something in front -/

/-- A place in a text with something in front: `index` characters, `behind`. -/
def moved (index : Nat) (behind : Text) (s : Place) : Place :=
  ⟨index + s.index, s.behind ++ behind, s.ahead, s.groups⟩

theorem advance_moved (index : Nat) (behind w : Text) (s : Place) :
    (s.moved index behind).advance w = (s.advance w).moved index behind := by
  simp [moved, advance, Nat.add_assoc]

theorem stretch_moved (index : Nat) (behind : Text) (s e : Place) :
    (s.moved index behind).stretch (e.moved index behind) = s.stretch e := by
  simp [moved, stretch, Nat.add_sub_add_left]

theorem reach_moved (ok : Char → Bool) (index : Nat) (behind : Text) (groups : List (Nat × Stretch)) (t : Text) :
    ∀ (i : Nat) (b : Text) (found : List Place),
      reach ok (index + i) (b ++ behind) groups (found.map (moved index behind)) t =
        (reach ok i b groups found t).map (moved index behind) := by
  induction t with
  | nil => intro i b found; rfl
  | cons c t ih =>
    intro i b found
    rw [reach, reach]
    split
    · exact ih (i + 1) (c :: b) (⟨i, b, c :: t, groups⟩ :: found)
    · rfl

theorem farthest_moved (ok : Char → Bool) (index : Nat) (behind : Text) (s : Place) :
    (s.moved index behind).farthest ok = (s.farthest ok).map (moved index behind) :=
  reach_moved ok index behind s.groups s.ahead s.index s.behind []

end Place

namespace Pattern

variable {s e : Place}

/-! ### The ends of each kind of pattern -/

theorem mem_ends_one {ok : Char → Bool} :
    e ∈ (one ok).ends s ↔ ∃ c rest, s.ahead = c :: rest ∧ ok c = true ∧ e = s.advance [c] := by
  unfold ends
  rcases ha : s.ahead with _ | ⟨c, rest⟩
  · simp
  · dsimp only
    split
    · rename_i hc
      simp [hc]
    · rename_i hc
      simp [hc]

theorem mem_ends_exactly {w : Text} :
    e ∈ (exactly w).ends s ↔ w <+: s.ahead ∧ e = s.advance w := by
  unfold ends Place.read
  split
  · rename_i h
    rw [List.isPrefixOf_iff_prefix] at h
    simp [h]
  · rename_i h
    rw [List.isPrefixOf_iff_prefix] at h
    simp [h]

theorem mem_ends_text {w : String} :
    e ∈ (text w).ends s ↔ w.toList <+: s.ahead ∧ e = s.advance w.toList := mem_ends_exactly

theorem mem_ends_many {ok : Char → Bool} :
    e ∈ (many ok).ends s ↔ ∃ w rest, (∀ c ∈ w, ok c = true) ∧ s.ahead = w ++ rest ∧ e = s.advance w :=
  Place.mem_farthest

theorem mem_ends_few {ok : Char → Bool} :
    e ∈ (few ok).ends s ↔ ∃ w rest, (∀ c ∈ w, ok c = true) ∧ s.ahead = w ++ rest ∧ e = s.advance w := by
  unfold ends
  rw [List.mem_reverse]
  exact Place.mem_farthest

theorem mem_ends_seq {p q : Pattern} : e ∈ (seq p q).ends s ↔ ∃ m ∈ p.ends s, e ∈ q.ends m :=
  List.mem_flatMap

theorem mem_ends_alt {p q : Pattern} : e ∈ (alt p q).ends s ↔ e ∈ p.ends s ∨ e ∈ q.ends s :=
  List.mem_append

theorem mem_ends_group {i : Nat} {p : Pattern} :
    e ∈ (group i p).ends s ↔ ∃ m ∈ p.ends s, e = { m with groups := (i, s.stretch m) :: m.groups } := by
  show e ∈ (p.ends s).map _ ↔ _
  rw [List.mem_map]
  exact exists_congr fun m => and_congr_right fun _ => eq_comm

theorem mem_ends_again {i : Nat} :
    e ∈ (again i).ends s ↔ ∃ w, s.group? i = some w ∧ w <+: s.ahead ∧ e = s.advance w := by
  unfold ends Place.read
  rcases s.group? i with _ | w
  · simp
  · rw [Option.bind_some]
    split
    · rename_i h
      rw [List.isPrefixOf_iff_prefix] at h
      simp [h]
    · rename_i h
      rw [List.isPrefixOf_iff_prefix] at h
      simp [h]

theorem mem_ends_edge : e ∈ edge.ends s ↔ s.afterWord ≠ s.beforeWord ∧ e = s := by
  unfold ends
  split <;> simp_all

theorem mem_ends_empty : e ∈ empty.ends s ↔ e = s := List.mem_singleton

theorem mem_ends_followedBy {p : Pattern} : e ∈ (followedBy p).ends s ↔ (∃ m, m ∈ p.ends s) ∧ e = s := by
  show e ∈ (if (p.ends s).isEmpty then [] else [s]) ↔ _
  rcases p.ends s with _ | ⟨m, ms⟩
  · simp
  · simp

theorem mem_ends_notAfter {w : Text} : e ∈ (notAfter w).ends s ↔ ¬ w.reverse <+: s.behind ∧ e = s := by
  unfold ends
  rw [← List.isPrefixOf_iff_prefix]
  split <;> simp_all

theorem mem_ends_notAfterAny {ok : Char → Bool} :
    e ∈ (notAfterAny ok).ends s ↔ (∀ c, s.behind.head? = some c → ok c = false) ∧ e = s := by
  unfold ends
  rcases s.behind.head? with _ | c
  · simp
  · rcases hc : ok c <;> simp [hc]

theorem mem_ends_any {ps : List Pattern} : e ∈ (any ps).ends s ↔ ∃ p ∈ ps, e ∈ p.ends s := by
  induction ps with
  | nil => simp [any, ends]
  | cons p ps ih =>
    cases ps with
    | nil => simp [any]
    | cons q ps =>
      rw [any, mem_ends_alt, ih]
      · simp
      · simp

theorem mem_ends_anyText {ws : List String} :
    e ∈ (anyText ws).ends s ↔ ∃ w ∈ ws, w.toList <+: s.ahead ∧ e = s.advance w.toList := by
  unfold anyText
  rw [mem_ends_any]
  constructor
  · rintro ⟨p, hp, he⟩
    obtain ⟨w, hw, rfl⟩ := List.mem_map.1 hp
    exact ⟨w, hw, mem_ends_text.1 he⟩
  · rintro ⟨w, hw, he⟩
    exact ⟨text w, List.mem_map_of_mem hw, mem_ends_text.2 he⟩

/-- **An end is reached by reading what is ahead.** -/
theorem exists_reads_of_mem_ends {p : Pattern} (he : e ∈ p.ends s) : ∃ w, s.Reads w e := by
  have hstay {s e : Place} (he : e = s) : ∃ w, s.Reads w e := ⟨[], he ▸ .refl s⟩
  have hread {s e : Place} {w rest : Text} (ha : s.ahead = w ++ rest) (he : e = s.advance w) :
      ∃ w, s.Reads w e := ⟨w, he ▸ Place.reads_advance ha⟩
  have hif {s e : Place} {c : Prop} [Decidable c] (he : e ∈ if c then [s] else []) : e = s := by
    split at he
    · exact List.mem_singleton.1 he
    · cases he
  have hifNot {s e : Place} {c : Prop} [Decidable c] (he : e ∈ if c then [] else [s]) : e = s := by
    split at he
    · cases he
    · exact List.mem_singleton.1 he
  induction p generalizing s e with
  | empty => exact hstay (mem_ends_empty.1 he)
  | one ok =>
    obtain ⟨c, rest, ha, -, he⟩ := mem_ends_one.1 he
    exact hread (w := [c]) ha he
  | exactly w =>
    obtain ⟨⟨rest, ha⟩, he⟩ := mem_ends_exactly.1 he
    exact hread ha.symm he
  | many ok =>
    obtain ⟨w, rest, -, ha, he⟩ := mem_ends_many.1 he
    exact hread ha he
  | few ok =>
    obtain ⟨w, rest, -, ha, he⟩ := mem_ends_few.1 he
    exact hread ha he
  | seq p q ihp ihq =>
    obtain ⟨m, hm, he⟩ := mem_ends_seq.1 he
    obtain ⟨u, hu⟩ := ihp hm
    obtain ⟨v, hv⟩ := ihq he
    exact ⟨u ++ v, hu.trans hv⟩
  | alt p q ihp ihq =>
    rcases mem_ends_alt.1 he with he | he
    · exact ihp he
    · exact ihq he
  | group i p ih =>
    obtain ⟨m, hm, rfl⟩ := mem_ends_group.1 he
    obtain ⟨w, hw⟩ := ih hm
    exact ⟨w, hw.ahead, hw.index, hw.behind⟩
  | again i =>
    obtain ⟨w, -, ⟨rest, ha⟩, he⟩ := mem_ends_again.1 he
    exact hread ha.symm he
  | edge | lineStart | lineEnd | textStart | textEnd | notFollowedBy p ih => exact hstay (hif he)
  | followedBy p ih | notAfter w | notAfterAny ok => exact hstay (hifNot he)

/-! ### The match at a place -/

/-- The match is the one that ends at the first end. -/
theorem hitAt_eq (p : Pattern) (s : Place) :
    p.hitAt s = (p.ends s).head?.map fun e => ⟨(s.stretch e).text, e.groups.map fun g => (g.1, g.2.text)⟩ := by
  unfold hitAt
  rw [run_eq]
  cases p.ends s <;> rfl

theorem hitAt_eq_none_iff {p : Pattern} {s : Place} : p.hitAt s = none ↔ ∀ e, e ∉ p.ends s := by
  rw [hitAt_eq, Option.map_eq_none_iff, List.head?_eq_none_iff, List.eq_nil_iff_forall_not_mem]

theorem exists_of_hitAt {p : Pattern} {s : Place} {h : Hit} (hh : p.hitAt s = some h) :
    ∃ e ∈ p.ends s, h = ⟨(s.stretch e).text, e.groups.map fun g => (g.1, g.2.text)⟩ := by
  rw [hitAt_eq] at hh
  obtain ⟨e, he, rfl⟩ := Option.map_eq_some_iff.1 hh
  exact ⟨e, List.mem_of_mem_head? he, rfl⟩

/-! ### The last part of a pattern -/

theorem ends_seq_assoc (p q r : Pattern) (s : Place) : (seq p (seq q r)).ends s = (seq (seq p q) r).ends s :=
  List.flatMap_assoc.symm

/-- A match that ends in any number of characters of a class takes as many as possible. -/
theorem not_head_of_hitAt_many {q : Pattern} {ok : Char → Bool} {s : Place} {h : Hit}
    (hh : (seq q (many ok)).hitAt s = some h) {rest : Text} (ht : s.ahead = h.text ++ rest) {c : Char}
    (hc : rest.head? = some c) : ok c = false := by
  rw [hitAt_eq] at hh
  obtain ⟨e, he, rfl⟩ := Option.map_eq_some_iff.1 hh
  obtain ⟨m, ms, hms⟩ : ∃ m ms, q.ends s = m :: ms :=
    List.exists_cons_of_ne_nil fun hnil => by simp [ends, hnil] at he
  obtain ⟨w, rest', ha, hfar, hrest⟩ := Place.head?_farthest ok m
  have he' : e = m.advance w := by
    rw [ends, hms, List.flatMap_cons, List.head?_append, show (many ok).ends m = m.farthest ok from rfl, hfar] at he
    exact (Option.some.inj he).symm
  obtain ⟨u, hu⟩ := exists_reads_of_mem_ends (hms ▸ List.mem_cons_self .. : m ∈ q.ends s)
  have hread := hu.trans (Place.reads_advance ha)
  have hahead := hread.ahead
  rw [he', hread.text_stretch] at ht
  rw [ht, List.append_cancel_left_eq, Place.ahead_advance, ha, List.drop_left] at hahead
  exact hrest c (hahead ▸ hc)

/-! ### Patterns that look only ahead -/

/-- Whether a pattern looks only at what is ahead. -/
def isForward : Pattern → Bool
  | empty | one _ | exactly _ | many _ | few _ | again _ | lineEnd | textEnd => true
  | seq p q | alt p q => p.isForward && q.isForward
  | group _ p | followedBy p | notFollowedBy p => p.isForward
  | edge | lineStart | textStart | notAfter _ | notAfterAny _ => false

theorem ends_moved {p : Pattern} (hp : p.isForward = true) (index : Nat) (behind : Text) (s : Place) :
    p.ends (s.moved index behind) = (p.ends s).map (Place.moved index behind) := by
  induction p generalizing s with
  | empty => rfl
  | one ok =>
    obtain ⟨i, b, t, g⟩ := s
    cases t with
    | nil => rfl
    | cons c t =>
      show (if ok c then [_] else []) = (if ok c then [_] else []).map _
      split <;> simp [Place.advance_moved]
  | exactly w => 
    unfold ends Place.read
    show (if w.isPrefixOf s.ahead then _ else _ : Option Place).toList = _
    split <;> simp [Place.advance_moved]
  | many ok => exact Place.farthest_moved ok index behind s
  | few ok => 
    unfold ends
    rw [Place.farthest_moved, List.map_reverse]
  | seq p q ihp ihq =>
    obtain ⟨hp, hq⟩ := Bool.and_eq_true_iff.1 hp
    show (p.ends _).flatMap q.ends = ((p.ends s).flatMap q.ends).map _
    rw [ihp hp, List.flatMap_map, List.map_flatMap]
    congr 1
    funext e
    exact ihq hq e
  | alt p q ihp ihq =>
    obtain ⟨hp, hq⟩ := Bool.and_eq_true_iff.1 hp
    show p.ends _ ++ q.ends _ = (p.ends s ++ q.ends s).map _
    rw [ihp hp, ihq hq, List.map_append]
  | group i p ih =>
    show (p.ends _).map _ = ((p.ends s).map _).map _
    rw [ih hp, List.map_map, List.map_map]
    refine List.map_congr_left fun e _ => ?_
    simp only [Function.comp_apply, Place.stretch_moved]
    rfl
  | again i => 
    show (((s.moved index behind).group? i).bind _).toList = ((s.group? i).bind _).toList.map _
    show ((s.group? i).bind _).toList = ((s.group? i).bind _).toList.map _
    cases s.group? i with
    | none => rfl
    | some w => 
      dsimp only [Option.bind_some, Place.read]
      show (if w.isPrefixOf s.ahead then _ else _ : Option Place).toList = _
      split <;> simp [Place.advance_moved]
  | followedBy p ih =>
    show (if (p.ends _).isEmpty then _ else _) = (if (p.ends s).isEmpty then [] else [s]).map _
    rw [ih hp]
    cases p.ends s <;> rfl
  | notFollowedBy p ih =>
    show (if (p.ends _).isEmpty then _ else _) = (if (p.ends s).isEmpty then [s] else []).map _
    rw [ih hp]
    cases p.ends s <;> rfl
  | lineEnd => 
    show (if s.ahead.head?.all (· == '\n') then _ else _) = (if s.ahead.head?.all (· == '\n') then [s] else []).map _
    split <;> rfl
  | textEnd => 
    show (if s.ahead.isEmpty || s.ahead == ['\n'] then _ else _) =
      (if s.ahead.isEmpty || s.ahead == ['\n'] then [s] else []).map _
    split <;> rfl
  | edge | lineStart | textStart | notAfter w | notAfterAny ok => cases hp

end Pattern

end LayeredFix
