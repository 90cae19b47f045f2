import LayeredFix.Proofs.Text.Replacing

/-!
# What a pattern reads

`Takes` says, without places and their lists of ends, which stretches a pattern may read, between what has been read
and what is left, and which numbered parts it notes on the way. `takes_iff` says that these are the ends of the pattern.
For one match, `takes_of_hit?` gives the shape of what was matched, and `exists_hit?` says that there is a match where
something can be read.
-/

namespace LayeredFix

/-- The numbered parts noted at a place. -/
def Place.parts (s : Place) : List (Nat × Text) := s.groups.map fun g => (g.1, g.2.text)

namespace Place

@[simp] theorem parts_advance (w : Text) (s : Place) : (s.advance w).parts = s.parts := rfl

theorem group?_eq (s : Place) (i : Nat) : s.group? i = s.parts.lookup i := by
  unfold group? parts
  induction s.groups with
  | nil => rfl
  | cons g gs ih =>
    rw [List.map_cons, List.lookup_cons, List.lookup_cons]
    cases i == g.1
    · exact ih
    · rfl

theorem Reads.unique {s e : Place} {w w' : Text} (h : s.Reads w e) (h' : s.Reads w' e) : w = w' := by
  have hlen : w.length = w'.length := Nat.add_left_cancel (h.index.symm.trans h'.index)
  exact List.append_inj_left (h.ahead.symm.trans h'.ahead) hlen

/-- What is left after a stretch was read. -/
theorem Reads.ahead_eq {s e : Place} {w rest : Text} (h : s.Reads w e) (ha : s.ahead = w ++ rest) : e.ahead = rest :=
  List.append_cancel_left (h.ahead.symm.trans ha)

end Place

namespace Pattern

/-- After `behind` (last character first) the pattern may read `w`, with `rest` left, and makes the noted parts `g` into
`g'`. -/
def Takes : Pattern → Text → List (Nat × Text) → Text → Text → List (Nat × Text) → Prop
  | empty, _, g, w, _, g' => w = [] ∧ g' = g
  | one ok, _, g, w, _, g' => (∃ c, w = [c] ∧ ok c = true) ∧ g' = g
  | exactly u, _, g, w, _, g' => w = u ∧ g' = g
  | many ok, _, g, w, _, g' | few ok, _, g, w, _, g' => (∀ c ∈ w, ok c = true) ∧ g' = g
  | seq p q, behind, g, w, rest, g' =>
    ∃ u v m, w = u ++ v ∧ p.Takes behind g u (v ++ rest) m ∧ q.Takes (u.reverse ++ behind) m v rest g'
  | alt p q, behind, g, w, rest, g' => p.Takes behind g w rest g' ∨ q.Takes behind g w rest g'
  | group i p, behind, g, w, rest, g' => ∃ m, p.Takes behind g w rest m ∧ g' = (i, w) :: m
  | again i, _, g, w, _, g' => g.lookup i = some w ∧ g' = g
  | edge, behind, g, w, rest, g' =>
    (behind.head?.any Text.isWord ≠ rest.head?.any Text.isWord ∧ w = []) ∧ g' = g
  | lineStart, behind, g, w, _, g' => (behind.head?.all (· == '\n') = true ∧ w = []) ∧ g' = g
  | lineEnd, _, g, w, rest, g' => (rest.head?.all (· == '\n') = true ∧ w = []) ∧ g' = g
  | textStart, behind, g, w, _, g' => (behind = [] ∧ w = []) ∧ g' = g
  | textEnd, _, g, w, rest, g' => ((rest = [] ∨ rest = ['\n']) ∧ w = []) ∧ g' = g
  | followedBy p, behind, g, w, rest, g' =>
    ((∃ u v m, rest = u ++ v ∧ p.Takes behind g u v m) ∧ w = []) ∧ g' = g
  | notFollowedBy p, behind, g, w, rest, g' =>
    ((¬ ∃ u v m, rest = u ++ v ∧ p.Takes behind g u v m) ∧ w = []) ∧ g' = g
  | notAfter u, behind, g, w, _, g' => (¬ u.reverse <+: behind ∧ w = []) ∧ g' = g
  | notAfterAny ok, behind, g, w, _, g' => ((∀ c, behind.head? = some c → ok c = false) ∧ w = []) ∧ g' = g

section
variable {s : Place} {w rest : Text} {g : List (Nat × Text)} {es : List Place}

/-- The ends of a pattern that reads the stretches of some kind and notes nothing. -/
theorem exists_reads_iff {P : Text → Prop} (ha : s.ahead = w ++ rest)
    (hes : ∀ e, e ∈ es ↔ ∃ u rest, P u ∧ s.ahead = u ++ rest ∧ e = s.advance u) :
    (P w ∧ g = s.parts) ↔ ∃ e ∈ es, s.Reads w e ∧ e.parts = g := by
  constructor
  · rintro ⟨hP, rfl⟩
    exact ⟨_, (hes _).2 ⟨w, rest, hP, ha, rfl⟩, Place.reads_advance ha, rfl⟩
  · rintro ⟨e, he, hr, rfl⟩
    obtain ⟨u, rest', hP, ha', rfl⟩ := (hes e).1 he
    exact ⟨(Place.reads_advance ha').unique hr ▸ hP, rfl⟩

/-- The ends of a pattern that only asks for something. -/
theorem exists_stays_iff {P : Text → Prop} (ha : s.ahead = w ++ rest) (hes : ∀ e, e ∈ es ↔ P s.ahead ∧ e = s) :
    ((P rest ∧ w = []) ∧ g = s.parts) ↔ ∃ e ∈ es, s.Reads w e ∧ e.parts = g := by
  have hrest : P rest ∧ w = [] ↔ P s.ahead ∧ w = [] := by
    refine and_congr_left fun hw => ?_
    rw [ha, hw, List.nil_append]
  rw [hrest]
  refine exists_reads_iff (P := fun w => P s.ahead ∧ w = []) ha fun e => (hes e).trans ?_
  constructor
  · rintro ⟨hP, rfl⟩
    exact ⟨[], _, ⟨hP, rfl⟩, rfl, (Place.advance_nil _).symm⟩
  · rintro ⟨u, rest, ⟨hP, rfl⟩, -, rfl⟩
    exact ⟨hP, Place.advance_nil s⟩

/-- There is an end where something can be read. -/
theorem exists_mem_ends_iff {p : Pattern}
    (hp : ∀ {w rest : Text} {g : List (Nat × Text)}, s.ahead = w ++ rest →
      (p.Takes s.behind s.parts w rest g ↔ ∃ e ∈ p.ends s, s.Reads w e ∧ e.parts = g)) :
    (∃ e, e ∈ p.ends s) ↔ ∃ u v m, s.ahead = u ++ v ∧ p.Takes s.behind s.parts u v m := by
  constructor
  · rintro ⟨e, he⟩
    obtain ⟨u, hu⟩ := exists_reads_of_mem_ends he
    exact ⟨u, e.ahead, e.parts, hu.ahead, (hp hu.ahead).2 ⟨e, he, hu, rfl⟩⟩
  · rintro ⟨u, v, m, ha, h⟩
    obtain ⟨e, he, -⟩ := (hp ha).1 h
    exact ⟨e, he⟩

theorem mem_if_iff {s e : Place} {c : Prop} [Decidable c] : (e ∈ if c then [s] else []) ↔ c ∧ e = s := by
  split <;> simp_all

end

/-- **What a pattern may read are its ends.** -/
theorem takes_iff {p : Pattern} {s : Place} {w rest : Text} {g : List (Nat × Text)} (ha : s.ahead = w ++ rest) :
    p.Takes s.behind s.parts w rest g ↔ ∃ e ∈ p.ends s, s.Reads w e ∧ e.parts = g := by
  induction p generalizing s w rest g with
  | empty =>
    refine exists_reads_iff (P := fun w => w = []) ha fun e => ?_
    rw [mem_ends_empty]
    constructor
    · rintro rfl
      exact ⟨[], _, rfl, rfl, (Place.advance_nil _).symm⟩
    · rintro ⟨u, rest, rfl, -, rfl⟩
      exact Place.advance_nil s
  | one ok =>
    refine exists_reads_iff (P := fun w => ∃ c, w = [c] ∧ ok c = true) ha fun e => ?_
    rw [mem_ends_one]
    constructor
    · rintro ⟨c, rest, ha, hc, rfl⟩
      exact ⟨[c], rest, ⟨c, rfl, hc⟩, ha, rfl⟩
    · rintro ⟨_, rest, ⟨c, rfl, hc⟩, ha, rfl⟩
      exact ⟨c, rest, ha, hc, rfl⟩
  | exactly u =>
    refine exists_reads_iff (P := fun w => w = u) ha fun e => ?_
    rw [mem_ends_exactly]
    constructor
    · rintro ⟨⟨rest, ha⟩, rfl⟩
      exact ⟨u, rest, rfl, ha.symm, rfl⟩
    · rintro ⟨_, rest, rfl, ha, rfl⟩
      exact ⟨⟨rest, ha.symm⟩, rfl⟩
  | many ok => exact exists_reads_iff (P := fun w => ∀ c ∈ w, ok c = true) ha fun e => mem_ends_many
  | few ok => exact exists_reads_iff (P := fun w => ∀ c ∈ w, ok c = true) ha fun e => mem_ends_few
  | seq p q ihp ihq =>
    constructor
    · rintro ⟨u, v, m, rfl, hp, hq⟩
      rw [List.append_assoc] at ha
      obtain ⟨e, he, hr, rfl⟩ := (ihp ha).1 hp
      rw [← hr.behind] at hq
      obtain ⟨e', he', hr', rfl⟩ := (ihq (hr.ahead_eq ha)).1 hq
      exact ⟨e', mem_ends_seq.2 ⟨e, he, he'⟩, hr.trans hr', rfl⟩
    · rintro ⟨e', he, hr, rfl⟩
      obtain ⟨e, he, he'⟩ := mem_ends_seq.1 he
      obtain ⟨u, hu⟩ := exists_reads_of_mem_ends he
      obtain ⟨v, hv⟩ := exists_reads_of_mem_ends he'
      obtain rfl := (hu.trans hv).unique hr
      rw [List.append_assoc] at ha
      refine ⟨u, v, e.parts, rfl, (ihp ha).2 ⟨e, he, hu, rfl⟩, ?_⟩
      rw [← hu.behind]
      exact (ihq (hu.ahead_eq ha)).2 ⟨e', he', hv, rfl⟩
  | alt p q ihp ihq =>
    show _ ∨ _ ↔ _
    rw [ihp ha, ihq ha]
    simp only [mem_ends_alt, or_and_right, exists_or]
  | group i p ih =>
    constructor
    · rintro ⟨m, hp, rfl⟩
      obtain ⟨e, he, hr, rfl⟩ := (ih ha).1 hp
      refine ⟨_, mem_ends_group.2 ⟨e, he, rfl⟩, ⟨hr.ahead, hr.index, hr.behind⟩, ?_⟩
      rw [← hr.text_stretch]
      rfl
    · rintro ⟨_, he, hr, rfl⟩
      obtain ⟨e, hm, rfl⟩ := mem_ends_group.1 he
      have hr' : s.Reads w e := ⟨hr.ahead, hr.index, hr.behind⟩
      refine ⟨e.parts, (ih ha).2 ⟨e, hm, hr', rfl⟩, ?_⟩
      rw [← hr'.text_stretch]
      rfl
  | again i =>
    refine exists_reads_iff (P := fun w => s.parts.lookup i = some w) ha fun e => ?_
    rw [mem_ends_again, Place.group?_eq]
    constructor
    · rintro ⟨w, hw, ⟨rest, ha⟩, rfl⟩
      exact ⟨w, rest, hw, ha.symm, rfl⟩
    · rintro ⟨w, rest, hw, ha, rfl⟩
      exact ⟨w, hw, ⟨rest, ha.symm⟩, rfl⟩
  | edge =>
    refine exists_stays_iff (P := fun t => s.behind.head?.any Text.isWord ≠ t.head?.any Text.isWord) ha fun e => ?_
    exact mem_ends_edge
  | lineStart => exact exists_stays_iff (P := fun _ => s.behind.head?.all (· == '\n') = true) ha fun e => mem_if_iff
  | lineEnd => exact exists_stays_iff (P := fun t => t.head?.all (· == '\n') = true) ha fun e => mem_if_iff
  | textStart =>
    refine exists_stays_iff (P := fun _ => s.behind = []) ha fun e => mem_if_iff.trans ?_
    rw [List.isEmpty_iff]
  | textEnd =>
    refine exists_stays_iff (P := fun t => t = [] ∨ t = ['\n']) ha fun e => mem_if_iff.trans ?_
    rw [Bool.or_eq_true, List.isEmpty_iff, beq_iff_eq]
  | followedBy p ih =>
    refine exists_stays_iff (P := fun t => ∃ u v m, t = u ++ v ∧ p.Takes s.behind s.parts u v m) ha fun e => ?_
    rw [mem_ends_followedBy, exists_mem_ends_iff fun ha => ih ha]
  | notFollowedBy p ih =>
    refine exists_stays_iff (P := fun t => ¬ ∃ u v m, t = u ++ v ∧ p.Takes s.behind s.parts u v m) ha fun e => ?_
    rw [← exists_mem_ends_iff fun ha => ih ha]
    refine mem_if_iff.trans (and_congr_left fun _ => ?_)
    rw [List.isEmpty_iff, List.eq_nil_iff_forall_not_mem, not_exists]
  | notAfter u =>
    exact exists_stays_iff (P := fun _ => ¬ u.reverse <+: s.behind) ha fun e => mem_ends_notAfter
  | notAfterAny ok =>
    exact exists_stays_iff (P := fun _ => ∀ c, s.behind.head? = some c → ok c = false) ha fun e => mem_ends_notAfterAny

/-! ### Patterns one after another -/

section
variable {behind w rest : Text} {g g' : List (Nat × Text)} {q : Pattern}

theorem takes_text {u : String} : (text u).Takes behind g w rest g' ↔ w = u.toList ∧ g' = g := Iff.rfl

theorem takes_some1 {ok : Char → Bool} :
    (some1 ok).Takes behind g w rest g' ↔ (w ≠ [] ∧ ∀ c ∈ w, ok c = true) ∧ g' = g := by
  constructor
  · rintro ⟨_, w, _, rfl, ⟨⟨c, rfl, hc⟩, rfl⟩, hw, rfl⟩
    refine ⟨⟨List.cons_ne_nil _ _, ?_⟩, rfl⟩
    rintro d (_ | ⟨_, hd⟩)
    · exact hc
    · exact hw d hd
  · rintro ⟨⟨hne, hw⟩, rfl⟩
    obtain ⟨c, w, rfl⟩ := List.exists_cons_of_ne_nil hne
    rw [List.forall_mem_cons] at hw
    exact ⟨[c], w, _, rfl, ⟨⟨c, rfl, hw.1⟩, rfl⟩, hw.2, rfl⟩

/-- A pattern that reads stretches of some kind and notes nothing. -/
def Plain (p : Pattern) (P : Text → Prop) : Prop :=
  ∀ behind g w rest g', p.Takes behind g w rest g' ↔ P w ∧ g' = g

theorem Plain.takes_seq {p : Pattern} {P : Text → Prop} (hp : Plain p P) :
    (seq p q).Takes behind g w rest g' ↔ ∃ u v, w = u ++ v ∧ P u ∧ q.Takes (u.reverse ++ behind) g v rest g' := by
  constructor
  · rintro ⟨u, v, m, hw, hp', hv⟩
    obtain ⟨hu, rfl⟩ := (hp ..).1 hp'
    exact ⟨u, v, hw, hu, hv⟩
  · rintro ⟨u, v, hw, hu, hv⟩
    exact ⟨u, v, g, hw, (hp ..).2 ⟨hu, rfl⟩, hv⟩

theorem Plain.takes_seq_group {p : Pattern} {P : Text → Prop} (hp : Plain p P) {i : Nat} :
    (seq (group i p) q).Takes behind g w rest g' ↔
      ∃ u v, w = u ++ v ∧ P u ∧ q.Takes (u.reverse ++ behind) ((i, u) :: g) v rest g' := by
  constructor
  · rintro ⟨u, v, _, hw, ⟨m, hp', rfl⟩, hv⟩
    obtain ⟨hu, rfl⟩ := (hp ..).1 hp'
    exact ⟨u, v, hw, hu, hv⟩
  · rintro ⟨u, v, hw, hu, hv⟩
    exact ⟨u, v, _, hw, ⟨g, (hp ..).2 ⟨hu, rfl⟩, rfl⟩, hv⟩

theorem takes_seq_again {i : Nat} :
    (seq (again i) q).Takes behind g w rest g' ↔
      ∃ u v, w = u ++ v ∧ g.lookup i = some u ∧ q.Takes (u.reverse ++ behind) g v rest g' := by
  constructor
  · rintro ⟨u, v, _, hw, ⟨hu, rfl⟩, hv⟩
    exact ⟨u, v, hw, hu, hv⟩
  · rintro ⟨u, v, hw, hu, hv⟩
    exact ⟨u, v, _, hw, ⟨hu, rfl⟩, hv⟩

theorem takes_seq_text {s : String} :
    (seq (text s) q).Takes behind g w rest g' ↔
      ∃ v, w = s.toList ++ v ∧ q.Takes (s.toList.reverse ++ behind) g v rest g' := by
  constructor
  · rintro ⟨_, v, _, hw, ⟨rfl, rfl⟩, hv⟩
    exact ⟨v, hw, hv⟩
  · rintro ⟨v, hw, hv⟩
    exact ⟨_, v, _, hw, ⟨rfl, rfl⟩, hv⟩

theorem plain_one {ok : Char → Bool} : Plain (one ok) fun w => ∃ c, w = [c] ∧ ok c = true := fun _ _ _ _ _ => Iff.rfl

theorem plain_many {ok : Char → Bool} : Plain (many ok) fun w => ∀ c ∈ w, ok c = true := fun _ _ _ _ _ => Iff.rfl

theorem plain_few {ok : Char → Bool} : Plain (few ok) fun w => ∀ c ∈ w, ok c = true := fun _ _ _ _ _ => Iff.rfl

theorem plain_some1 {ok : Char → Bool} : Plain (some1 ok) fun w => w ≠ [] ∧ ∀ c ∈ w, ok c = true :=
  fun _ _ _ _ _ => takes_some1

theorem plain_text {s : String} : Plain (text s) fun w => w = s.toList := fun _ _ _ _ _ => Iff.rfl

theorem plain_anyText {ws : List String} : Plain (anyText ws) fun w => ∃ s ∈ ws, w = s.toList := by
  intro behind g w rest g'
  induction ws with
  | nil =>
    constructor
    · rintro ⟨⟨hnone, -⟩, -⟩
      exact absurd ⟨[], rest, g, rfl, rfl, rfl⟩ hnone
    · rintro ⟨⟨s, hs, -⟩, -⟩
      cases hs
  | cons s ws ih =>
    cases ws with
    | nil =>
      show (text s).Takes behind g w rest g' ↔ _
      simp [takes_text]
    | cons s' ws =>
      show (text s).Takes behind g w rest g' ∨ (anyText (s' :: ws)).Takes behind g w rest g' ↔ _
      rw [takes_text, ih, ← or_and_right]
      refine and_congr_left fun _ => ?_
      simp only [List.mem_cons, or_and_right, exists_or, exists_eq_left]

theorem Plain.seq {p : Pattern} {P Q : Text → Prop} (hp : Plain p P) (hq : Plain q Q) :
    Plain (seq p q) fun w => ∃ u v, w = u ++ v ∧ P u ∧ Q v := by
  intro behind g w rest g'
  rw [hp.takes_seq]
  constructor
  · rintro ⟨u, v, rfl, hu, htakes⟩
    obtain ⟨hv, rfl⟩ := (hq ..).1 htakes
    exact ⟨⟨u, v, rfl, hu, hv⟩, rfl⟩
  · rintro ⟨⟨u, v, rfl, hu, hv⟩, rfl⟩
    exact ⟨u, v, rfl, hu, (hq ..).2 ⟨hv, rfl⟩⟩

theorem Plain.optional {p : Pattern} {P : Text → Prop} (hp : Plain p P) : Plain (optional p) fun w => P w ∨ w = [] := by
  intro behind g w rest g'
  show p.Takes behind g w rest g' ∨ (w = [] ∧ g' = g) ↔ _
  rw [hp, or_and_right]

theorem takes_seq_lineStart :
    (seq lineStart q).Takes behind g w rest g' ↔ behind.head?.all (· == '\n') = true ∧ q.Takes behind g w rest g' := by
  constructor
  · rintro ⟨_, v, _, rfl, ⟨⟨hline, rfl⟩, rfl⟩, hv⟩
    exact ⟨hline, hv⟩
  · rintro ⟨hline, hv⟩
    exact ⟨[], w, g, rfl, ⟨⟨hline, rfl⟩, rfl⟩, hv⟩

theorem takes_seq_textStart :
    (seq textStart q).Takes behind g w rest g' ↔ behind = [] ∧ q.Takes behind g w rest g' := by
  constructor
  · rintro ⟨_, v, _, rfl, ⟨⟨hstart, rfl⟩, rfl⟩, hv⟩
    exact ⟨hstart, hv⟩
  · rintro ⟨hstart, hv⟩
    exact ⟨[], w, g, rfl, ⟨⟨hstart, rfl⟩, rfl⟩, hv⟩

theorem takes_seq_edge :
    (seq edge q).Takes behind g w rest g' ↔
      behind.head?.any Text.isWord ≠ (w ++ rest).head?.any Text.isWord ∧ q.Takes behind g w rest g' := by
  constructor
  · rintro ⟨_, v, _, rfl, ⟨⟨hedge, rfl⟩, rfl⟩, hv⟩
    exact ⟨hedge, hv⟩
  · rintro ⟨hedge, hv⟩
    exact ⟨[], w, g, rfl, ⟨⟨hedge, rfl⟩, rfl⟩, hv⟩

theorem takes_seq_notAfter {u : Text} :
    (seq (notAfter u) q).Takes behind g w rest g' ↔ ¬ u.reverse <+: behind ∧ q.Takes behind g w rest g' := by
  constructor
  · rintro ⟨_, v, _, rfl, ⟨⟨hnot, rfl⟩, rfl⟩, hv⟩
    exact ⟨hnot, hv⟩
  · rintro ⟨hnot, hv⟩
    exact ⟨[], w, g, rfl, ⟨⟨hnot, rfl⟩, rfl⟩, hv⟩

theorem takes_seq_notFollowedBy {p : Pattern} :
    (seq (notFollowedBy p) q).Takes behind g w rest g' ↔
      (¬ ∃ u v m, w ++ rest = u ++ v ∧ p.Takes behind g u v m) ∧ q.Takes behind g w rest g' := by
  constructor
  · rintro ⟨_, v, _, rfl, ⟨⟨hnot, rfl⟩, rfl⟩, hv⟩
    exact ⟨hnot, hv⟩
  · rintro ⟨hnot, hv⟩
    exact ⟨[], w, g, rfl, ⟨⟨hnot, rfl⟩, rfl⟩, hv⟩

end

/-! ### One match -/

/-- What was matched could be read. -/
theorem takes_of_hit? {p : Pattern} {behind t : Text} {h : Hit} (hh : p.hit? behind t = some h) :
    ∃ rest, t = h.text ++ rest ∧ p.Takes behind [] h.text rest h.groups := by
  obtain ⟨e, he, rfl⟩ := exists_of_hitAt hh
  obtain ⟨w, hr⟩ := exists_reads_of_mem_ends he
  have ha : t = w ++ e.ahead := hr.ahead
  refine ⟨e.ahead, by rw [hr.text_stretch]; exact ha, ?_⟩
  have htakes := (takes_iff (s := ⟨behind.length, behind, t, []⟩) ha).2 ⟨e, he, hr, rfl⟩
  rw [← hr.text_stretch] at htakes
  exact htakes

/-- Where something can be read there is a match. -/
theorem exists_hit? {p : Pattern} {behind w rest : Text} {g : List (Nat × Text)} (h : p.Takes behind [] w rest g) :
    ∃ hit, p.hit? behind (w ++ rest) = some hit := by
  obtain ⟨e, he, -⟩ := (takes_iff (s := ⟨behind.length, behind, w ++ rest, []⟩) rfl).1 h
  rw [← Option.isSome_iff_exists, ← Option.ne_none_iff_isSome]
  intro hnone
  exact hit?_eq_none_iff.1 hnone e he

/-- A pattern occurs where something can be read. -/
theorem occursIn_iff {p : Pattern} {t : Text} :
    p.occursIn t = true ↔ ∃ a w z g, t = a ++ (w ++ z) ∧ p.Takes a.reverse [] w z g := by
  rw [← Bool.not_eq_false, occursIn_eq_false_iff]
  constructor
  · intro h
    refine Classical.byContradiction fun hno => h fun u v ht => ?_
    rcases hhit : p.hit? u.reverse v with _ | hit
    · rfl
    · obtain ⟨rest, rfl, htakes⟩ := takes_of_hit? hhit
      exact absurd ⟨u, hit.text, rest, hit.groups, ht, htakes⟩ hno
  · rintro ⟨a, w, z, g, rfl, htakes⟩ habsent
    obtain ⟨hit, hhit⟩ := exists_hit? htakes
    rw [habsent a (w ++ z) rfl] at hhit
    cases hhit

end Pattern

end LayeredFix
