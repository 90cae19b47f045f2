import LayeredFix.Proofs.Hardening.Interface

/-!
# Which members are terminated

The repair of interfaces puts a semicolon behind a member, in the place of blanks, and does so for each line of an interface
that holds one (`edited_replaceFrom`). It reads each line alone. So the brackets of all members that it terminates are closed
just if no such line leaves a bracket to another line (`fixInterfaceSemicolons_balanced_iff`); a type over several lines may
be cut (`fixInterfaceSemicolons_cuts_member`).
-/

namespace LayeredFix.Pass.Hardening

open Pattern

variable {behind t l m y : Text}

/-! ### Brackets -/

/-- What closes a bracket. -/
def closing? : Char → Option Char
  | '(' => some ')'
  | '[' => some ']'
  | '<' => some '>'
  | _ => none

/-- A character closes a bracket. -/
def isClosing (c : Char) : Bool := c == ')' || c == ']' || c == '>'

/-- Whether all brackets of a text are closed, the inner ones first. `missing` holds what closes the brackets that are open,
innermost first; `arrow` says that the text stands behind an equals sign, which makes an arrow out of a `>`. -/
def closesAll (missing : List Char) (arrow : Bool) : Text → Bool
  | [] => missing.isEmpty
  | c :: t =>
    if arrow && c == '>' then closesAll missing false t
    else
      match closing? c with
      | some d => closesAll (d :: missing) false t
      | none =>
        if isClosing c then missing.head? == some c && closesAll missing.tail false t
        else closesAll missing (c == '=') t

/-- Whether all brackets of a text are closed. -/
def balanced (t : Text) : Bool := closesAll [] false t

theorem closesAll_space {c : Char} (hc : Text.isSpaceOrTab c = true) (missing : List Char) (arrow : Bool) (t : Text) :
    closesAll missing arrow (c :: t) = closesAll missing false t := by
  rcases Bool.or_eq_true_iff.1 hc with hc | hc
  · obtain rfl := beq_iff_eq.1 hc
    cases arrow <;> rfl
  · obtain rfl := beq_iff_eq.1 hc
    cases arrow <;> rfl

theorem closesAll_spaces (hy : ∀ c ∈ y, Text.isSpaceOrTab c = true) (missing : List Char) (arrow : Bool) :
    closesAll missing arrow y = missing.isEmpty := by
  induction y generalizing arrow with
  | nil => rfl
  | cons c y ih =>
    rw [List.forall_mem_cons] at hy
    rw [closesAll_space hy.1, ih hy.2]

theorem closesAll_append_spaces (hy : ∀ c ∈ y, Text.isSpaceOrTab c = true) (missing : List Char) (arrow : Bool) (t : Text) :
    closesAll missing arrow (t ++ y) = closesAll missing arrow t := by
  induction t generalizing missing arrow with
  | nil => exact closesAll_spaces hy missing arrow
  | cons c t ih => simp only [List.cons_append, closesAll, ih]

/-- Blanks around a text hold no bracket. -/
theorem balanced_spaces {i : Text} (hi : ∀ c ∈ i, Text.isSpaceOrTab c = true) (hy : ∀ c ∈ y, Text.isSpaceOrTab c = true) :
    balanced (i ++ (m ++ y)) = balanced m := by
  unfold balanced
  induction i with
  | nil => exact closesAll_append_spaces hy [] false m
  | cons c i ih =>
    rw [List.forall_mem_cons] at hi
    rw [List.cons_append, closesAll_space hi.1, ih hi.2]

/-! ### What the repair writes -/

/-- A piece of a text with its members terminated. -/
inductive Edit where
  /-- A character that stays. -/
  | kept (c : Char)
  /-- A member, from its name on, with a semicolon in the place of the blanks behind it. -/
  | ended (member blanks : Text)

/-- A piece as it was. -/
def Edit.old : Edit → Text
  | kept c => [c]
  | ended m y => m ++ y

/-- A piece as it is written. -/
def Edit.new : Edit → Text
  | kept c => [c]
  | ended m _ => m ++ [';']

/-- Pieces lead from one text to another, and the members that end in them are those of a class. -/
structure Edited (P : Text → Text → Prop) (es : List Edit) (t t' : Text) : Prop where
  old : es.flatMap Edit.old = t
  new : es.flatMap Edit.new = t'
  ended : ∀ m y, Edit.ended m y ∈ es ↔ P m y

theorem edited_kept (t : Text) : Edited (fun _ _ => False) (t.map .kept) t t where
  old := by rw [List.flatMap_map]; exact List.flatMap_singleton' t
  new := by rw [List.flatMap_map]; exact List.flatMap_singleton' t
  ended := by simp

theorem Edited.append {P Q : Text → Text → Prop} {es es' : List Edit} {t t' u u' : Text} (h : Edited P es t t')
    (h' : Edited Q es' u u') : Edited (fun m y => P m y ∨ Q m y) (es ++ es') (t ++ u) (t' ++ u') where
  old := by rw [List.flatMap_append, h.old, h'.old]
  new := by rw [List.flatMap_append, h.new, h'.new]
  ended m y := by rw [List.mem_append, h.ended, h'.ended]

theorem Edited.congr {P P' : Text → Text → Prop} {es : List Edit} {t t' : Text} (h : Edited P es t t')
    (heq : ∀ m y, P m y ↔ P' m y) : Edited P' es t t' :=
  ⟨h.old, h.new, fun m y => (h.ended m y).trans (heq m y)⟩

/-! ### Lines -/

/-- The line holds a member without terminator, from its name on, with blanks behind it, and no comment. -/
def Holds (l m y : Text) : Prop := Uncommented l ∧ IsMember m ∧ (∀ c, m.head? = some c → Text.isSpaceOrTab c = false) ∧
  ∃ i, l = i ++ (m ++ y) ∧ (∀ c ∈ i, Text.isSpaceOrTab c = true) ∧ ∀ c ∈ y, Text.isSpaceOrTab c = true

/-- A member without the blanks in front of it. -/
theorem IsMember.split (hm : IsMember m) : ∃ i m', m = i ++ m' ∧ (∀ c ∈ i, Text.isSpaceOrTab c = true) ∧ IsMember m' ∧
    ∀ c, m'.head? = some c → Text.isSpaceOrTab c = false := by
  obtain ⟨i, n, q, b', w, c, rfl, hi, hn, hq, hb', hw, hc⟩ := hm
  refine ⟨i, _, rfl, hi, ⟨[], n, q, b', w, c, rfl, by simp, hn, hq, hb', hw, hc⟩, fun d hd => ?_⟩
  obtain ⟨e, n, rfl⟩ := List.exists_cons_of_ne_nil hn.1
  obtain rfl : e = d := Option.some.inj hd
  refine Bool.eq_false_iff.2 fun hspace => ?_
  rcases Bool.or_eq_true_iff.1 hspace with h | h
  · obtain rfl := beq_iff_eq.1 h
    exact absurd (hn.2 ' ' (by simp)) (by decide)
  · obtain rfl := beq_iff_eq.1 h
    exact absurd (hn.2 '\t' (by simp)) (by decide)

theorem IsMember.append_left {i : Text} (hm : IsMember m) (hi : ∀ c ∈ i, Text.isSpaceOrTab c = true) : IsMember (i ++ m) := by
  obtain ⟨b, n, q, b', w, c, rfl, hb, hrest⟩ := hm
  exact ⟨i ++ b, n, q, b', w, c, by simp, List.forall_mem_append.2 ⟨hi, hb⟩, hrest⟩

theorem exists_unended_iff : (∃ m, Unended l m) ↔ ∃ m y, Holds l m y := by
  constructor
  · rintro ⟨m, hm, hun, y, rfl, hy⟩
    obtain ⟨i, m', rfl, hi, hm', hhead⟩ := hm.split
    exact ⟨m', y, hun, hm', hhead, i, List.append_assoc .., hi, hy⟩
  · rintro ⟨m, y, hun, hm, -, i, rfl, hi, hy⟩
    exact ⟨i ++ m, hm.append_left hi, hun, y, (List.append_assoc ..).symm, hy⟩

/-- The brackets of a member are those of its line. -/
theorem Holds.balanced_eq (h : Holds l m y) : balanced l = balanced m := by
  obtain ⟨-, -, -, i, rfl, hi, hy⟩ := h
  exact balanced_spaces hi hy

/-- A line holds one member at most. -/
theorem Holds.unique {m' y' : Text} (h : Holds l m y) (h' : Holds l m' y') : m = m' ∧ y = y' := by
  obtain ⟨-, hm, hhead, i, rfl, hi, hy⟩ := h
  obtain ⟨-, hm', hhead', i', heq, hi', hy'⟩ := h'
  have hfront {i v : Text} {m : Text} (hi : ∀ c ∈ i, Text.isSpaceOrTab c = true) (hm : IsMember m)
      (hhead : ∀ c, m.head? = some c → Text.isSpaceOrTab c = false) :
      (i ++ (m ++ v)).dropWhile Text.isSpaceOrTab = m ++ v := by
    obtain ⟨u, c, rfl, -⟩ := hm.last
    obtain ⟨d, w, hw⟩ := List.exists_cons_of_ne_nil (l := u ++ [c]) (by simp)
    rw [List.dropWhile_append_of_pos hi, hw, List.cons_append,
      List.dropWhile_cons_of_neg (by simp [hhead d (by rw [hw]; rfl)])]
  have hrest := congrArg (List.dropWhile Text.isSpaceOrTab) heq
  rw [hfront hi hm hhead, hfront hi' hm' hhead'] at hrest
  exact Text.run_unique hrest hy hy' (fun _ _ h => (h ▸ hm).not_isSpaceOrTab) fun _ _ h => (h ▸ hm').not_isSpaceOrTab

/-- The member of a line is ended. -/
theorem edited_endMember (hl : '\n' ∉ l) : ∃ es, Edited (Holds l) es l (endMember l) := by
  rcases endMember_cases hl with ⟨hno, heq⟩ | ⟨m, hm, heq⟩
  · rw [heq]
    refine ⟨_, (edited_kept l).congr fun m y => iff_of_false id fun h => ?_⟩
    obtain ⟨m, hm⟩ := exists_unended_iff.2 ⟨m, y, h⟩
    exact hno m hm
  · obtain ⟨hmember, hun, y, rfl, hy⟩ := hm
    obtain ⟨i, m, rfl, hi, hm, hhead⟩ := hmember.split
    have hholds : Holds (i ++ m ++ y) m y := ⟨hun, hm, hhead, i, List.append_assoc .., hi, hy⟩
    rw [heq, List.append_assoc, List.append_assoc]
    refine ⟨i.map .kept ++ [.ended m y], ((edited_kept i).append (Q := fun m' y' => m' = m ∧ y' = y) ⟨?_, ?_, ?_⟩).congr ?_⟩
    · simp [Edit.old]
    · simp [Edit.new]
    · simp
    · intro m' y'
      rw [false_or, ← List.append_assoc]
      constructor
      · rintro ⟨rfl, rfl⟩
        exact hholds
      · intro h
        exact h.unique hholds

theorem edited_terminateMembers (b : Text) :
    ∃ es, Edited (fun m y => ∃ l ∈ Text.lines b, Holds l m y) es b (terminateMembers b) := by
  have hlines : ∀ (ls : List Text), (∀ l ∈ ls, '\n' ∉ l) →
      ∃ es, Edited (fun m y => ∃ l ∈ ls, Holds l m y) es (Text.unlines ls) (Text.unlines (ls.map endMember)) := by
    intro ls
    induction ls with
    | nil => exact fun _ => ⟨[], (edited_kept []).congr (by simp)⟩
    | cons l ls ih =>
      intro hls
      rw [List.forall_mem_cons] at hls
      obtain ⟨es, hes⟩ := edited_endMember hls.1
      cases ls with
      | nil =>
        rw [List.map_singleton, Text.unlines_singleton, Text.unlines_singleton]
        exact ⟨es, hes.congr (by simp)⟩
      | cons l' ls =>
        obtain ⟨es', hes'⟩ := ih hls.2
        rw [List.map_cons] at hes'
        rw [List.map_cons, List.map_cons, Text.unlines_cons_cons, Text.unlines_cons_cons]
        exact ⟨_, (hes.append ((edited_kept ['\n']).append hes')).congr (by simp)⟩
  have h := hlines (Text.lines b) fun _ => Text.notMem_of_mem_lines
  rwa [Text.unlines_lines, ← terminateMembers_eq] at h

/-! ### Interfaces -/

/-- The text between the braces of an interface without nested braces, where `behind` has been read. -/
def IsBody (behind t b : Text) : Prop := ∃ u v n z, t = u ++ v ∧ (u.reverse ++ behind).head?.any Text.isWord = false ∧
  Opens v n b z

/-- Where no interface begins, the bodies are those of the rest. -/
theorem isBody_cons_iff {c : Char} {b : Text}
    (hno : ∀ n b z, behind.head?.any Text.isWord = false → ¬ Opens (c :: t) n b z) :
    IsBody behind (c :: t) b ↔ IsBody (c :: behind) t b := by
  constructor
  · rintro ⟨u, v, n, z, heq, hbehind, ho⟩
    rcases u with _ | ⟨c', u⟩
    · obtain rfl : c :: t = v := heq
      exact absurd ho (hno n b z hbehind)
    · obtain ⟨rfl, rfl⟩ := List.cons.inj heq
      exact ⟨u, v, n, z, rfl, by simpa using hbehind, ho⟩
  · rintro ⟨u, v, n, z, rfl, hbehind, ho⟩
    exact ⟨c :: u, v, n, z, rfl, by simpa using hbehind, ho⟩

/-- Where an interface begins, there is its body, and the bodies behind it. -/
theorem isBody_interface_iff {n b z b' : Text} (hbehind : behind.head?.any Text.isWord = false) (hn : IsHead n)
    (hb : ∀ c ∈ b, isFlat c = true) : IsBody behind (n ++ '\x7b' :: (b ++ '\x7d' :: z)) b' ↔
      b' = b ∨ IsBody ((n ++ '\x7b' :: (b ++ ['\x7d'])).reverse ++ behind) z b' := by
  constructor
  · rintro ⟨u, v, n', z', heq, hbehind', ho⟩
    rcases ho.in_interface hn hb heq with rfl | ⟨k, rfl, rfl⟩
    · exact Or.inl rfl
    · exact Or.inr ⟨k, v, n', z', rfl, by simpa using hbehind', ho⟩
  · rintro (rfl | ⟨u, v, n', z', rfl, hbehind', ho⟩)
    · exact ⟨[], _, n, z, rfl, hbehind, rfl, hn, hb⟩
    · exact ⟨n ++ '\x7b' :: (b ++ '\x7d' :: u), v, n', z', by simp, by simpa using hbehind', ho⟩

/-- A line of an interface holds a member without terminator. -/
def Terminable (behind t m y : Text) : Prop := ∃ b, IsBody behind t b ∧ ∃ l ∈ Text.lines b, Holds l m y

/-- **The repair ends the members of the lines of interfaces**, and leaves all else as it is. -/
theorem edited_replaceFrom (behind t : Text) :
    ∃ es, Edited (Terminable behind t) es t (interfaceBody.replaceFrom ended behind t) := by
  induction behind, t using interface_induction with
  | nil behind =>
    rw [replaceFrom_nil]
    refine ⟨[], (edited_kept []).congr fun m y => iff_of_false id ?_⟩
    rintro ⟨b, ⟨u, v, n, z, heq, -, hv, -⟩, -⟩
    obtain ⟨rfl, rfl⟩ := List.append_eq_nil_iff.1 heq.symm
    simp at hv
  | pass behind c t hno ih =>
    obtain ⟨es, hes⟩ := ih
    rw [replaceFrom_pass hno]
    refine ⟨_, ((edited_kept [c]).append hes).congr fun m y => ?_⟩
    rw [false_or, Terminable, Terminable]
    simp only [isBody_cons_iff hno]
  | stop behind n b z hbehind hn hb ih =>
    obtain ⟨es, hes⟩ := ih
    obtain ⟨es', hes'⟩ := edited_terminateMembers b
    rw [replaceFrom_interface hbehind ⟨rfl, hn, hb⟩]
    have h := (edited_kept (n ++ ['\x7b'])).append (hes'.append ((edited_kept ['\x7d']).append hes))
    simp only [List.append_assoc, List.cons_append, List.nil_append] at h
    refine ⟨_, h.congr fun m y => ?_⟩
    simp only [Terminable, isBody_interface_iff hbehind hn hb, or_and_right, exists_or, exists_eq_left, false_or]

/-- **The members that are terminated are complete just if their lines are.** The repair turns a text into its result piece by
piece; the members that it ends are those that a line of an interface without nested braces holds, from the name on. In all of
them the brackets are closed, arrows aside, just if they are closed in each line of an interface that holds a member
without terminator. -/
theorem fixInterfaceSemicolons_balanced_iff (t : Text) : ∃ es : List Edit,
    es.flatMap Edit.old = t ∧ es.flatMap Edit.new = fixInterfaceSemicolons t ∧
    (∀ m y, Edit.ended m y ∈ es ↔ ∃ b, IsBody [] t b ∧ ∃ l ∈ Text.lines b, Holds l m y) ∧
    ((∀ m y, Edit.ended m y ∈ es → balanced m = true) ↔
      ∀ b, IsBody [] t b → ∀ l ∈ Text.lines b, (∃ m, Unended l m) → balanced l = true) := by
  obtain ⟨es, hold, hnew, hended⟩ := edited_replaceFrom [] t
  rw [← fixInterfaceSemicolons_eq] at hnew
  refine ⟨es, hold, hnew, hended, fun h b hb l hl hm => ?_, fun h m y hmem => ?_⟩
  · obtain ⟨m, y, hholds⟩ := exists_unended_iff.1 hm
    rw [hholds.balanced_eq]
    exact h m y ((hended m y).2 ⟨b, hb, l, hl, hholds⟩)
  · obtain ⟨b, hb, l, hl, hholds⟩ := (hended m y).1 hmem
    rw [← hholds.balanced_eq]
    exact h b hb l hl (exists_unended_iff.2 ⟨m, y, hholds⟩)

/-- An interface with a member whose type is written over several lines. -/
def openParameters : Text := "interface A \x7b\n  f: (\n    x: number\n  ) => void\n\x7d".toList

/-- **A type over several lines is cut**: its first line is taken for a member, and a bracket is open where it ends. -/
theorem fixInterfaceSemicolons_cuts_member :
    fixInterfaceSemicolons openParameters = "interface A \x7b\n  f: (;\n    x: number;\n  ) => void\n\x7d".toList ∧
      balanced "f: (".toList = false := by
  decide +kernel

end LayeredFix.Pass.Hardening
