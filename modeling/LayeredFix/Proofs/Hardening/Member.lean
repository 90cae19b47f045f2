import LayeredFix.Pass.Hardening
import LayeredFix.Proofs.Text.Lines
import LayeredFix.Proofs.Text.Reading

/-!
# Members without terminator

A member without terminator fills its line, so the members of a body are terminated line by line
(`terminateMembers_eq`). A line that ends in a semicolon holds no such member, so a second time nothing happens
(`terminateMembers_idempotent`).
-/

namespace LayeredFix.Pass.Hardening

open Pattern

/-! ### What the pattern reads -/

/-- The last character of a member without terminator. -/
def IsLast (c : Char) : Prop := (isTypeChar c && !Text.isBlank c) = true

/-- A member without terminator, with the blanks in front of it. -/
def IsMember (m : Text) : Prop := ∃ b n q b' w c, m = b ++ (n ++ (q ++ (b' ++ (":".toList ++ (w ++ [c]))))) ∧
  (∀ d ∈ b, Text.isSpaceOrTab d = true) ∧ (n ≠ [] ∧ ∀ d ∈ n, (Text.isWord d || d == '$') = true) ∧
  (q = "?".toList ∨ q = []) ∧ (∀ d ∈ b', Text.isSpaceOrTab d = true) ∧
  (∀ d ∈ w, (isTypeChar d && d != '\n') = true) ∧ IsLast c

/-- No comment begins in the first line of a text. -/
def Uncommented (t : Text) : Prop := ∀ a v, t = a ++ ("//".toList ++ v) → '\n' ∈ a

variable {behind w rest l : Text} {g : List (Nat × Text)} {h : Hit}

theorem IsMember.last {m : Text} (hm : IsMember m) : ∃ u c, m = u ++ [c] ∧ IsLast c := by
  obtain ⟨b, n, q, b', w, c, rfl, -, -, -, -, -, hc⟩ := hm
  exact ⟨b ++ (n ++ (q ++ (b' ++ (":".toList ++ w)))), c, by simp, hc⟩

theorem IsMember.not_isSpaceOrTab {u : Text} {c : Char} (hm : IsMember (u ++ [c])) : Text.isSpaceOrTab c = false := by
  obtain ⟨u', c', heq, hc⟩ := hm.last
  obtain rfl : c = c' := List.singleton_inj.1 (List.append_inj' heq rfl).2
  rcases hspace : Text.isSpaceOrTab c with _ | _
  · rfl
  · rw [IsLast, Text.isBlank_of_isSpaceOrTab hspace, Bool.not_true, Bool.and_false] at hc
    cases hc

theorem IsMember.oneLine {m : Text} (hm : IsMember m) : '\n' ∉ m := by
  obtain ⟨b, n, q, b', w, c, rfl, hb, hn, hq, hb', hw, hc⟩ := hm
  have hblank : Text.isSpaceOrTab '\n' = false := by decide
  have hname : (Text.isWord '\n' || '\n' == '$') = false := by decide
  have htype : (isTypeChar '\n' && '\n' != '\n') = false := by decide
  have hlast : (isTypeChar '\n' && !Text.isBlank '\n') = false := by decide
  have hno {p : Char → Bool} (hp : p '\n' = false) {v : Text} (hv : ∀ d ∈ v, p d = true) : '\n' ∉ v := fun hmem => by
    simp [hv _ hmem] at hp
  simp only [List.mem_append, List.mem_singleton, not_or]
  refine ⟨hno hblank hb, hno hname hn.2, ?_, hno hblank hb', by decide, hno htype hw, ?_⟩
  · rcases hq with rfl | rfl
    · decide
    · simp
  · rintro rfl
    exact absurd (hc.symm.trans hlast) (by decide)

/-- At the beginning of a line the pattern reads a member and the blanks up to the end of the line. -/
theorem takes_unterminatedMember : unterminatedMember.Takes behind [] w rest g ↔
    behind.head?.all (· == '\n') = true ∧ Uncommented (w ++ rest) ∧
      ∃ m y, w = m ++ y ∧ IsMember m ∧ (∀ c ∈ y, Text.isSpaceOrTab c = true) ∧
        rest.head?.all (· == '\n') = true ∧ g = [(1, m)] := by
  have hcomment : (¬ ∃ u v g', w ++ rest = u ++ v ∧
      (Pattern.all [.many (· != '\n'), .text "//"]).Takes behind [] u v g') ↔ Uncommented (w ++ rest) := by
    simp only [Pattern.all, plain_many.takes_seq, takes_text]
    constructor
    · intro hno a v heq
      refine Classical.byContradiction fun hnl => hno ⟨a ++ "//".toList, v, [], by rw [heq, List.append_assoc], a, _, rfl,
        fun c hc => bne_iff_ne.2 (ne_of_mem_of_not_mem hc hnl), rfl, rfl⟩
    · rintro hun ⟨_, v, _, heq, a, _, rfl, ha, rfl, -⟩
      exact absurd (ha _ (hun a v (by rw [heq, List.append_assoc]))) (by decide)
  have hmember {b : Text} {g g' : List (Nat × Text)} {w rest : Text} :
      (Pattern.all [.many Text.isSpaceOrTab, .some1 (fun c => Text.isWord c || c == '$'), .optional (.text "?"),
        .many Text.isSpaceOrTab, .text ":", .many (fun c => isTypeChar c && c != '\n'),
        .one (fun c => isTypeChar c && !Text.isBlank c)]).Takes b g w rest g' ↔ IsMember w ∧ g' = g := by
    simp only [Pattern.all, plain_many.takes_seq, plain_some1.takes_seq, plain_text.optional.takes_seq, takes_seq_text]
    constructor
    · rintro ⟨b, _, rfl, hb, n, _, rfl, hn, q, _, rfl, hq, b', _, rfl, hb', _, rfl, w, _, rfl, hw, ⟨c, rfl, hc⟩, rfl⟩
      exact ⟨⟨b, n, q, b', w, c, rfl, hb, hn, hq, hb', hw, hc⟩, rfl⟩
    · rintro ⟨⟨b, n, q, b', w, c, rfl, hb, hn, hq, hb', hw, hc⟩, rfl⟩
      exact ⟨b, _, rfl, hb, n, _, rfl, hn, q, _, rfl, hq, b', _, rfl, hb', _, rfl, w, _, rfl, hw, ⟨c, rfl, hc⟩, rfl⟩
  show (seq lineStart (Pattern.all [_, _, _, _])).Takes behind [] w rest g ↔ _
  rw [takes_seq_lineStart]
  refine and_congr_right fun _ => ?_
  constructor
  · rintro ⟨_, _, _, rfl, ⟨⟨hno, rfl⟩, rfl⟩, m, _, _, rfl, ⟨_, hm, rfl⟩, y, _, _, rfl, ⟨hy, rfl⟩, ⟨hend, rfl⟩, rfl⟩
    obtain ⟨hm', rfl⟩ := hmember.1 hm
    exact ⟨hcomment.1 hno, m, y, by simp, hm', hy, hend, rfl⟩
  · rintro ⟨hno, m, y, rfl, hm, hy, hend, rfl⟩
    exact ⟨[], m ++ y, [], rfl, ⟨⟨hcomment.2 hno, rfl⟩, rfl⟩, m, y, _, rfl, ⟨[], hmember.2 ⟨hm, rfl⟩, rfl⟩,
      y, [], _, (List.append_nil y).symm, ⟨hy, rfl⟩, ⟨hend, rfl⟩, rfl⟩

/-! ### Line by line -/

/-- The line holds a member without terminator, and no comment. -/
def Unended (l m : Text) : Prop :=
  IsMember m ∧ Uncommented l ∧ ∃ y, l = m ++ y ∧ ∀ c ∈ y, Text.isSpaceOrTab c = true

theorem uncommented_line (hrest : rest.head?.all (· == '\n') = true) :
    Uncommented (l ++ rest) ↔ Uncommented l := by
  constructor
  · intro hun a v heq
    exact hun a (v ++ rest) (by rw [heq]; simp)
  · intro hun a v heq
    refine Classical.byContradiction fun hnl => ?_
    have hpre : a ++ "//".toList <+: l ++ rest := ⟨v, by rw [heq]; simp⟩
    have hline : a ++ "//".toList <+: l := by
      cases rest with
      | nil => rwa [List.append_nil] at hpre
      | cons c rest =>
        obtain rfl : c = '\n' := by simpa using hrest
        refine Text.prefix_of_notMem hpre ?_
        rw [List.mem_append, not_or]
        exact ⟨hnl, by decide⟩
    obtain ⟨v', hv'⟩ := hline
    exact hnl (hun a v' (by rw [← hv', List.append_assoc]))

/-- A match begins where a line does, and fills it. -/
theorem hit?_unterminatedMember (hl : '\n' ∉ l) (hrest : rest.head?.all (· == '\n') = true) :
    unterminatedMember.hit? behind (l ++ rest) = some h ↔
      behind.head?.all (· == '\n') = true ∧ ∃ m, Unended l m ∧ h = ⟨l, [(1, m)]⟩ := by
  have hshape {h : Hit} (hh : unterminatedMember.hit? behind (l ++ rest) = some h) :
      behind.head?.all (· == '\n') = true ∧ ∃ m, Unended l m ∧ h = ⟨l, [(1, m)]⟩ := by
    obtain ⟨rest', ht, htakes⟩ := takes_of_hit? hh
    obtain ⟨hline, hun, m, y, hw, hm, hy, hend, hg⟩ := takes_unterminatedMember.1 htakes
    have hfree : '\n' ∉ h.text := by
      rw [hw, List.mem_append, not_or]
      exact ⟨hm.oneLine, fun hmem => absurd (hy _ hmem) (by decide)⟩
    have heq : l = h.text := by
      rcases rest with _ | ⟨c, rest⟩
      · rcases rest' with _ | ⟨c', rest'⟩
        · simpa using ht
        · obtain rfl : c' = '\n' := by simpa using hend
          rw [List.append_nil] at ht
          exact absurd (ht ▸ hl) (by simp)
      · obtain rfl : c = '\n' := by simpa using hrest
        rcases rest' with _ | ⟨c', rest'⟩
        · rw [List.append_nil] at ht
          exact absurd (ht ▸ hfree) (by simp)
        · obtain rfl : c' = '\n' := by simpa using hend
          exact (Text.cut_unique ht hl hfree).1
    rw [← ht, uncommented_line hrest] at hun
    obtain ⟨text, groups⟩ := h
    obtain rfl : l = text := heq
    obtain rfl : groups = _ := hg
    exact ⟨hline, m, ⟨hm, hun, y, hw, hy⟩, rfl⟩
  refine ⟨hshape, ?_⟩
  rintro ⟨hline, m, ⟨hm, hun, y, rfl, hy⟩, rfl⟩
  have htakes : unterminatedMember.Takes behind [] (m ++ y) rest [(1, m)] :=
    takes_unterminatedMember.2 ⟨hline, (uncommented_line hrest).2 hun, m, y, rfl, hm, hy, hrest, rfl⟩
  obtain ⟨h, hh⟩ := exists_hit? htakes
  obtain ⟨-, m', ⟨hm', -, y', heq, hy'⟩, rfl⟩ := hshape hh
  rw [hh, (Text.run_unique heq hy hy' (fun _ _ h => (h ▸ hm).not_isSpaceOrTab) fun _ _ h => (h ▸ hm').not_isSpaceOrTab).1]

/-- A line with its member terminated. -/
def endMember (l : Text) : Text :=
  match unterminatedMember.hit? [] l with
  | none => l
  | some h => h.group 1 ++ [';']

theorem endMember_cases (hl : '\n' ∉ l) :
    (∀ m, ¬ Unended l m) ∧ endMember l = l ∨ ∃ m, Unended l m ∧ endMember l = m ++ [';'] := by
  have hiff {h : Hit} : unterminatedMember.hit? [] (l ++ []) = some h ↔ _ := hit?_unterminatedMember hl rfl
  rw [List.append_nil] at hiff
  unfold endMember
  rcases hh : unterminatedMember.hit? [] l with _ | h
  · refine Or.inl ⟨fun m hm => ?_, rfl⟩
    rw [hiff.2 ⟨rfl, m, hm, rfl⟩] at hh
    cases hh
  · obtain ⟨-, m, hm, rfl⟩ := hiff.1 hh
    exact Or.inr ⟨m, hm, rfl⟩

/-- A line that ends in a semicolon holds no member without terminator. -/
theorem not_unended_semicolon {u m : Text} : ¬ Unended (u ++ [';']) m := by
  rintro ⟨hm, -, y, heq, hy⟩
  rcases List.eq_nil_or_concat y with rfl | ⟨y, d, rfl⟩
  · obtain ⟨u', c, rfl, hc⟩ := hm.last
    rw [List.append_nil] at heq
    obtain rfl := List.singleton_inj.1 (List.append_inj' heq rfl).2
    exact absurd hc (by simp [IsLast, isTypeChar])
  · rw [List.concat_eq_append, ← List.append_assoc] at heq
    obtain rfl := List.singleton_inj.1 (List.append_inj' heq rfl).2
    exact absurd (hy ';' (by simp)) (by decide)

theorem endMember_idempotent (hl : '\n' ∉ l) : endMember (endMember l) = endMember l := by
  rcases endMember_cases hl with ⟨-, heq⟩ | ⟨m, hm, heq⟩
  · rw [heq, heq]
  · have hfree : '\n' ∉ m ++ [';'] := by
      rw [List.mem_append, not_or]
      exact ⟨hm.1.oneLine, by decide⟩
    rw [heq]
    rcases endMember_cases hfree with ⟨-, heq'⟩ | ⟨m', hm', -⟩
    · exact heq'
    · exact absurd hm' not_unended_semicolon

theorem notMem_endMember (hl : '\n' ∉ l) : '\n' ∉ endMember l := by
  rcases endMember_cases hl with ⟨-, heq⟩ | ⟨m, hm, heq⟩
  · rwa [heq]
  · rw [heq, List.mem_append, not_or]
    exact ⟨hm.1.oneLine, by decide⟩

/-- The replacement of members, begun at the beginning of a line, goes on behind the line. -/
theorem replaceFrom_line (hl : '\n' ∉ l) (hline : behind.head?.all (· == '\n') = true)
    (hrest : rest.head?.all (· == '\n') = true) :
    unterminatedMember.replaceFrom (fun h => h.group 1 ++ [';']) behind (l ++ rest) =
      endMember l ++ unterminatedMember.replaceFrom (fun h => h.group 1 ++ [';']) (l.reverse ++ behind) rest := by
  rcases endMember_cases hl with ⟨hno, heq⟩ | ⟨m, hm, heq⟩
  · rw [heq, replaceFrom_append]
    rintro u v rfl hne
    rw [List.mem_append, not_or] at hl
    refine Option.eq_none_iff_forall_ne_some.2 fun h hh => ?_
    obtain ⟨hstart, m, hm, -⟩ := (hit?_unterminatedMember hl.2 hrest).1 hh
    rcases List.eq_nil_or_concat u with rfl | ⟨u, c, rfl⟩
    · exact hno m hm
    · obtain rfl : c = '\n' := by simpa using hstart
      exact hl.1 (by simp)
  · have hhit : unterminatedMember.hit? behind (l ++ rest) = some ⟨l, [(1, m)]⟩ :=
      (hit?_unterminatedMember hl hrest).2 ⟨hline, m, hm, rfl⟩
    obtain ⟨hmember, -, y, rfl, -⟩ := hm
    have hne : m ++ y ≠ [] := by
      obtain ⟨u, c, rfl, -⟩ := hmember.last
      simp
    rw [heq]
    exact replaceFrom_of_some (h := ⟨m ++ y, [(1, m)]⟩) hhit hne

theorem replaceFrom_newline (t : Text) :
    unterminatedMember.replaceFrom (fun h => h.group 1 ++ [';']) behind ('\n' :: t) =
      '\n' :: unterminatedMember.replaceFrom (fun h => h.group 1 ++ [';']) ('\n' :: behind) t := by
  refine replaceFrom_cons_of_none (Option.eq_none_iff_forall_ne_some.2 fun h hh => ?_)
  obtain ⟨-, m, ⟨hm, -, y, heq, -⟩, -⟩ := (hit?_unterminatedMember (l := []) (by simp) (by simp)).1 hh
  obtain ⟨u, c, rfl, -⟩ := hm.last
  simp at heq

/-- **Members are terminated line by line.** -/
theorem terminateMembers_eq (t : Text) : terminateMembers t = Text.unlines ((Text.lines t).map endMember) := by
  have hlines : ∀ (ls : List Text) (behind : Text), (∀ l ∈ ls, '\n' ∉ l) → behind.head?.all (· == '\n') = true →
      unterminatedMember.replaceFrom (fun h => h.group 1 ++ [';']) behind (Text.unlines ls) =
        Text.unlines (ls.map endMember) := by
    intro ls
    induction ls with
    | nil => exact fun _ _ _ => replaceFrom_nil _
    | cons l ls ih =>
      intro behind hls hline
      rw [List.forall_mem_cons] at hls
      cases ls with
      | nil =>
        have h := replaceFrom_line hls.1 hline (show ([] : Text).head?.all (· == '\n') = true from rfl)
        rw [List.append_nil, replaceFrom_nil, List.append_nil] at h
        rw [List.map_singleton, Text.unlines_singleton, Text.unlines_singleton, h]
      | cons l' ls =>
        have hrest := ih ('\n' :: (l.reverse ++ behind)) hls.2 rfl
        rw [List.map_cons] at hrest
        rw [Text.unlines_cons_cons, replaceFrom_line hls.1 hline rfl, replaceFrom_newline, hrest, List.map_cons, List.map_cons,
          Text.unlines_cons_cons]
  have h := hlines (Text.lines t) [] (fun _ hl => Text.notMem_of_mem_lines hl) rfl
  rwa [Text.unlines_lines, ← replace_eq] at h

theorem lines_terminateMembers (t : Text) : Text.lines (terminateMembers t) = (Text.lines t).map endMember := by
  rw [terminateMembers_eq, Text.lines_unlines]
  · simpa using Text.lines_ne_nil t
  · rintro l hl
    obtain ⟨l, hl', rfl⟩ := List.mem_map.1 hl
    exact notMem_endMember (Text.notMem_of_mem_lines hl')

/-- **Members are terminated once.** -/
theorem terminateMembers_idempotent (t : Text) : terminateMembers (terminateMembers t) = terminateMembers t := by
  rw [terminateMembers_eq (terminateMembers t), lines_terminateMembers, terminateMembers_eq t, List.map_map]
  congr 1
  exact List.map_congr_left fun l hl => endMember_idempotent (Text.notMem_of_mem_lines hl)

end LayeredFix.Pass.Hardening
