import LayeredFix.Proofs.Hardening.Interface

/-!
# Members are terminated line by line

The repair of interfaces reads the lines of a body one at a time. Here its work is written down as a list of patches: characters
outside of the bodies, which stay, and the parts of lines that lie inside one, each as it was and as it is written. What becomes
of a part is said once (`Finished`), and where a part lies is said by what is in front of it and behind it (`InBody`): the
patches are in their places (`Placed`), and none is missing (`Complete`). No patch holds a line break but the break itself, so
the patches fall into one row for each line of the text (`fixInterfaceSemicolons_lineLocal`).
-/

namespace LayeredFix.Pass.Hardening

open Pattern

variable {behind before p p' t x n b b' z l : Text}

/-! ### Parts of lines -/

/-- What becomes of the part of a line that lies inside a body. -/
inductive Finished : Text → Text → Prop where
  /-- A part without a member to terminate stays. -/
  | same {p : Text} (hno : ∀ m, ¬ Unended p m) : Finished p p
  /-- A part that holds such a member has no semicolon, no comma and no comment. One semicolon takes the place of the spaces and
  tabs at its end, which are `y`. -/
  | ended {u y : Text} {c : Char} (hm : Unended (u ++ c :: y) (u ++ [c])) (hc : Text.isSpaceOrTab c = false)
      (hy : ∀ d ∈ y, Text.isSpaceOrTab d = true) (hfree : ';' ∉ u ++ c :: y ∧ ',' ∉ u ++ c :: y)
      (hcomment : ¬ "//".toList <:+: u ++ c :: y) : Finished (u ++ c :: y) (u ++ [c, ';'])

theorem Finished.oneLine (h : Finished p p') (hp : '\n' ∉ p) : '\n' ∉ p' := by
  cases h with
  | same => exact hp
  | ended =>
    simp only [List.mem_append, List.mem_cons, not_or] at hp ⊢
    exact ⟨hp.1, hp.2.1, by decide, by simp⟩

theorem IsMember.notMem {m : Text} {d : Char} (hm : IsMember m) (hd : d ∈ [';', ',']) : d ∉ m := by
  have hall : ∀ d ∈ [';', ','], Text.isSpaceOrTab d = false ∧ (Text.isWord d || d == '$') = false ∧ d ∉ "?:".toList ∧
      isTypeChar d = false := by decide
  obtain ⟨hspace, hname, hmark, htype⟩ := hall d hd
  obtain ⟨i, n, q, i', w, c, rfl, hi, hn, hq, hi', hw, hc⟩ := hm
  have hno {p : Char → Bool} (hp : p d = false) {v : Text} (hv : ∀ e ∈ v, p e = true) : d ∉ v := fun hmem =>
    absurd ((hv d hmem).symm.trans hp) (by decide)
  rw [show "?:".toList = "?".toList ++ ":".toList from rfl, List.mem_append, not_or] at hmark
  simp only [List.mem_append, List.mem_singleton, not_or]
  refine ⟨hno hspace hi, hno hname hn.2, ?_, hno hspace hi', hmark.2, hno (by simp [htype]) hw, ?_⟩
  · rcases hq with rfl | rfl
    · exact hmark.1
    · simp
  · rintro rfl
    rw [IsLast, htype] at hc
    cases hc

theorem finished_endMember (hl : '\n' ∉ l) : Finished l (endMember l) := by
  rcases endMember_cases hl with ⟨hno, heq⟩ | ⟨m, hunended, heq⟩
  · rw [heq]
    exact .same hno
  · obtain ⟨hm, hun, y, rfl, hy⟩ := hunended
    obtain ⟨u, c, rfl, -⟩ := hm.last
    have hfree {d : Char} (hd : d ∈ [';', ',']) : d ∉ u ++ c :: y := by
      have hspace : ∀ d ∈ [';', ','], Text.isSpaceOrTab d = false := by decide
      rw [List.append_cons, List.mem_append, not_or]
      exact ⟨hm.notMem hd, fun hmem => absurd ((hy d hmem).symm.trans (hspace d hd)) (by decide)⟩
    have hcomment : ¬ "//".toList <:+: u ++ c :: y := by
      rintro ⟨a, v, hv⟩
      have hcut : (u ++ [c]) ++ y = a ++ ("//".toList ++ v) := by
        rw [← List.append_assoc, hv]
        simp
      exact hl (hcut ▸ List.mem_append_left _ (hun a v hcut))
    rw [List.append_assoc, List.singleton_append] at hun heq ⊢
    rw [heq, List.append_assoc]
    exact .ended ⟨hm, hun, y, List.append_cons .., hy⟩ hm.not_isSpaceOrTab hy ⟨hfree (by simp), hfree (by simp)⟩ hcomment

/-- An interface without nested braces has the head `n`, and of its body `p` is the part that lies in one line: what is in front
of it ends with a line break, if anything, and what is behind it begins with one. -/
structure IsPart (n b p b' : Text) : Prop where
  head : IsHead n
  flat : ∀ c ∈ b ++ (p ++ b'), isFlat c = true
  line : '\n' ∉ p
  front : b = [] ∨ ∃ a, b = a ++ ['\n']
  back : b'.head?.all (· == '\n') = true

/-- Between `before` and `after`, `p` is the part of a line that lies in the body of an interface. -/
def InBody (before p after : Text) : Prop := ∃ x n b b' z, before = x ++ (n ++ '\x7b' :: b) ∧ after = b' ++ '\x7d' :: z ∧
  x.reverse.head?.any Text.isWord = false ∧ IsPart n b p b'

theorem InBody.oneLine (h : InBody before p z) : '\n' ∉ p := by
  obtain ⟨_, _, _, _, _, -, -, -, hp⟩ := h
  exact hp.line

/-! ### Patches -/

/-- A piece of a text with its interfaces repaired. -/
inductive Patch where
  /-- A character that stays. -/
  | kept (c : Char)
  /-- The part of a line that lies inside a body, as it was and as it is written. -/
  | part (old new : Text)

/-- A piece as it was. -/
def Patch.old : Patch → Text
  | kept c => [c]
  | part p _ => p

/-- A piece as it is written. -/
def Patch.new : Patch → Text
  | kept c => [c]
  | part _ p' => p'

/-- The text that was. -/
def was (es : List Patch) : Text := es.flatMap Patch.old

/-- The text that is written. -/
def written (es : List Patch) : Text := es.flatMap Patch.new

/-- Between `before` and `z`, every part among the patches lies inside a body and is finished. -/
def Placed (before : Text) (es : List Patch) (z : Text) : Prop :=
  match es with
  | [] => True
  | .kept c :: es => Placed (before ++ [c]) es z
  | .part p p' :: es => InBody before p (was es ++ z) ∧ Finished p p' ∧ Placed (before ++ p) es z

/-- Every part of a line that lies in the body of an interface of the text is among the patches, where `behind` has been read. -/
def Complete (behind : Text) (es : List Patch) : Prop :=
  ∀ u n b p b' z, was es = u ++ (n ++ '\x7b' :: (b ++ (p ++ (b' ++ '\x7d' :: z)))) →
    (u.reverse ++ behind).head?.any Text.isWord = false → IsPart n b p b' →
    ∃ es₁ p' es₂, es = es₁ ++ .part p p' :: es₂ ∧ was es₁ = u ++ (n ++ '\x7b' :: b)

theorem was_append (es es' : List Patch) : was (es ++ es') = was es ++ was es' := List.flatMap_append

theorem written_append (es es' : List Patch) : written (es ++ es') = written es ++ written es' := List.flatMap_append

theorem was_kept (t : Text) : was (t.map .kept) = t := by
  rw [was, List.flatMap_map]
  exact List.flatMap_singleton' t

theorem written_kept (t : Text) : written (t.map .kept) = t := by
  rw [written, List.flatMap_map]
  exact List.flatMap_singleton' t

theorem flatMap_rows {f : Patch → Text} (hf : f (.kept '\n') = ['\n']) (rows : List (List Patch)) :
    (List.intercalate [.kept '\n'] rows).flatMap f = Text.unlines (rows.map (List.flatMap f)) := by
  induction rows with
  | nil => rfl
  | cons row rows ih =>
    cases rows with
    | nil => rw [List.intercalate_singleton, List.map_singleton, Text.unlines_singleton]
    | cons row' rows =>
      rw [List.intercalate_cons_cons, List.flatMap_append, ih, List.flatMap_append, List.flatMap_singleton, hf]
      conv => rhs; rw [List.map_cons, List.map_cons, Text.unlines_cons_cons, ← List.map_cons (l := rows)]
      rw [List.append_assoc, List.singleton_append]

theorem placed_append {es es' : List Patch} :
    Placed before (es ++ es') z ↔ Placed before es (was es' ++ z) ∧ Placed (before ++ was es) es' z := by
  induction es generalizing before with
  | nil => simp [Placed, was]
  | cons e es ih =>
    cases e with
    | kept c => simp only [List.cons_append, Placed, ih, was, List.flatMap_cons, Patch.old, List.append_assoc]
    | part p p' =>
      simp only [List.cons_append, Placed, ih, was_append, List.append_assoc, and_assoc]
      rfl

theorem placed_kept (t before z : Text) : Placed before (t.map .kept) z := by
  induction t generalizing before with
  | nil => trivial
  | cons c t ih => exact ih _

/-! ### Bodies -/

/-- The patches for the lines of a body. -/
def linePatches (ls : List Text) : List Patch :=
  List.intercalate [.kept '\n'] (ls.map fun l => [.part l (endMember l)])

theorem linePatches_singleton (l : Text) : linePatches [l] = [.part l (endMember l)] := List.intercalate_singleton

theorem linePatches_cons_cons (l l' : Text) (ls : List Text) :
    linePatches (l :: l' :: ls) = .part l (endMember l) :: .kept '\n' :: linePatches (l' :: ls) := by
  rw [linePatches, List.map_cons, List.map_cons, List.intercalate_cons_cons]
  rfl

theorem linePatches_append {ls ls' : List Text} (h : ls ≠ []) (h' : ls' ≠ []) :
    linePatches (ls ++ ls') = linePatches ls ++ .kept '\n' :: linePatches ls' := by
  induction ls with
  | nil => exact absurd rfl h
  | cons l ls ih =>
    cases ls with
    | nil =>
      obtain ⟨l', ls', rfl⟩ := List.exists_cons_of_ne_nil h'
      rw [List.singleton_append, linePatches_cons_cons, linePatches_singleton, List.singleton_append]
    | cons l₁ ls =>
      rw [List.cons_append, List.cons_append, linePatches_cons_cons, linePatches_cons_cons, ← List.cons_append,
        ih (List.cons_ne_nil _ _), List.cons_append, List.cons_append]

theorem flatMap_linePatches {f : Patch → Text} (hf : f (.kept '\n') = ['\n']) (ls : List Text) :
    (linePatches ls).flatMap f = Text.unlines (ls.map fun l => f (.part l (endMember l))) := by
  rw [linePatches, flatMap_rows hf, List.map_map]
  simp only [Function.comp_def, List.flatMap_singleton]

theorem was_linePatches (ls : List Text) : was (linePatches ls) = Text.unlines ls :=
  (flatMap_linePatches rfl ls).trans (congrArg _ (List.map_id' ls))

theorem written_linePatches (ls : List Text) : written (linePatches ls) = Text.unlines (ls.map endMember) :=
  flatMap_linePatches rfl ls

/-- The lines of a body lie inside it, behind those in `b`. -/
theorem placed_linePatches (hx : x.reverse.head?.any Text.isWord = false) (hn : IsHead n) :
    ∀ (ls : List Text) (b : Text), (∀ l ∈ ls, '\n' ∉ l) → (∀ c ∈ b ++ Text.unlines ls, isFlat c = true) →
      (b = [] ∨ ∃ a, b = a ++ ['\n']) → Placed (x ++ (n ++ '\x7b' :: b)) (linePatches ls) ('\x7d' :: z) := by
  intro ls
  induction ls with
  | nil => exact fun _ _ _ _ => trivial
  | cons l ls ih =>
    intro b hls hflat hb
    rw [List.forall_mem_cons] at hls
    cases ls with
    | nil =>
      rw [Text.unlines_singleton] at hflat
      rw [linePatches_singleton]
      have hpart : IsPart n b l [] := ⟨hn, by simpa using hflat, hls.1, hb, rfl⟩
      exact ⟨⟨x, n, b, [], z, rfl, rfl, hx, hpart⟩, finished_endMember hls.1, trivial⟩
    | cons l' ls =>
      rw [Text.unlines_cons_cons] at hflat
      have hrest := ih (b ++ (l ++ ['\n'])) hls.2 (by simpa using hflat) (Or.inr ⟨b ++ l, by simp⟩)
      have hwas : was (.kept '\n' :: linePatches (l' :: ls)) = '\n' :: Text.unlines (l' :: ls) := by
        rw [← was_linePatches]
        rfl
      rw [linePatches_cons_cons]
      refine ⟨?_, finished_endMember hls.1, ?_⟩
      · rw [hwas]
        exact ⟨x, n, b, _, z, rfl, rfl, hx, hn, hflat, hls.1, hb, rfl⟩
      · show Placed ((x ++ (n ++ '\x7b' :: b) ++ l) ++ ['\n']) _ _
        simpa using hrest

/-- The part that lies in one line of a body is among the patches for its lines. -/
theorem exists_linePatch (h : IsPart n b p b') : ∃ es₁ es₂,
    linePatches (Text.lines (b ++ (p ++ b'))) = es₁ ++ .part p (endMember p) :: es₂ ∧ was es₁ = b := by
  have hfront : ∃ es₂, linePatches (Text.lines (p ++ b')) = .part p (endMember p) :: es₂ := by
    rcases hb' : b' with _ | ⟨c, r⟩
    · rw [List.append_nil, Text.lines_of_notMem h.line]
      exact ⟨[], linePatches_singleton p⟩
    · obtain rfl : c = '\n' := by simpa [hb'] using h.back
      rw [Text.lines_append_newline, Text.lines_of_notMem h.line]
      obtain ⟨l, ls, hr⟩ := List.exists_cons_of_ne_nil (Text.lines_ne_nil r)
      exact ⟨.kept '\n' :: linePatches (l :: ls), by rw [hr, List.singleton_append, linePatches_cons_cons]⟩
  obtain ⟨es₂, hes⟩ := hfront
  rcases h.front with rfl | ⟨a, rfl⟩
  · exact ⟨[], es₂, hes, rfl⟩
  · refine ⟨linePatches (Text.lines a) ++ [.kept '\n'], es₂, ?_, ?_⟩
    · rw [List.append_assoc, List.singleton_append, Text.lines_append_newline,
        linePatches_append (Text.lines_ne_nil _) (Text.lines_ne_nil _), hes, List.append_assoc]
      rfl
    · rw [was_append, was_linePatches, Text.unlines_lines]
      rfl

theorem IsPart.opens (h : IsPart n b p b') (z : Text) :
    Opens (n ++ '\x7b' :: (b ++ (p ++ (b' ++ '\x7d' :: z)))) n (b ++ (p ++ b')) z :=
  ⟨by simp, h.head, h.flat⟩

/-- Inside an interface no other one begins: what opens one is the interface itself, or stands behind it. -/
theorem Opens.itself_or_behind {u v n' c z' : Text} (hn : IsHead n) (hb : ∀ c ∈ b, isFlat c = true)
    (heq : n ++ '\x7b' :: (b ++ '\x7d' :: z) = u ++ v) (ho : Opens v n' c z') :
    n = u ++ n' ∧ c = b ∨ ∃ k, u = n ++ '\x7b' :: (b ++ '\x7d' :: k) ∧ z = k ++ v := by
  obtain ⟨hv, hn', hc⟩ := ho
  by_cases hopen : '\x7b' ∈ u
  · right
    obtain ⟨u₁, u₂, rfl, hu₁⟩ := List.eq_append_cons_of_mem hopen
    rw [List.append_assoc, List.cons_append] at heq
    obtain ⟨rfl, hbody⟩ := Text.cut_unique heq hn.notMem.1 hu₁
    by_cases hclose : '\x7d' ∈ u₂
    · obtain ⟨w, k, rfl, hw⟩ := List.eq_append_cons_of_mem hclose
      rw [List.append_assoc, List.cons_append] at hbody
      obtain ⟨rfl, rfl⟩ := Text.cut_unique hbody (notMem_of_isFlat hb).2 hw
      exact ⟨k, rfl, rfl⟩
    · -- The brace that opens the other interface would stand in the body.
      obtain ⟨w, rfl, hvw⟩ := Text.cut_after hbody.symm hclose
      have hpre : n' ++ ['\x7b'] <+: w ++ '\x7d' :: z := ⟨c ++ '\x7d' :: z', by rw [← hvw, hv]; simp⟩
      have hno : '\x7d' ∉ n' ++ ['\x7b'] := by
        rw [List.mem_append, not_or]
        exact ⟨hn'.notMem.2.1, by decide⟩
      have hmem : '\x7b' ∈ w := (Text.prefix_of_notMem hpre hno).subset (by simp)
      exact absurd (List.mem_append_right u₂ hmem) (notMem_of_isFlat hb).1
  · left
    have hcut : n ++ '\x7b' :: (b ++ '\x7d' :: z) = (u ++ n') ++ '\x7b' :: (c ++ '\x7d' :: z') := by
      rw [heq, hv, List.append_assoc]
    have hno : '\x7b' ∉ u ++ n' := by
      rw [List.mem_append, not_or]
      exact ⟨hopen, hn'.notMem.1⟩
    obtain ⟨hhead, hbody⟩ := Text.cut_unique hcut hn.notMem.1 hno
    exact ⟨hhead, (Text.cut_unique hbody (notMem_of_isFlat hb).2 (notMem_of_isFlat hc).2).1.symm⟩

/-! ### The text -/

/-- The patches for an interface and what is behind it. -/
def interfacePatches (n b : Text) (es : List Patch) : List Patch :=
  (n ++ ['\x7b']).map .kept ++ (linePatches (Text.lines b) ++ .kept '\x7d' :: es)

theorem was_interfacePatches (n b : Text) (es : List Patch) :
    was (interfacePatches n b es) = n ++ '\x7b' :: (b ++ '\x7d' :: was es) := by
  rw [interfacePatches, was_append, was_append, was_kept, was_linePatches, Text.unlines_lines]
  simp [was, Patch.old]

theorem written_interfacePatches (n b : Text) (es : List Patch) :
    written (interfacePatches n b es) = n ++ '\x7b' :: (terminateMembers b ++ '\x7d' :: written es) := by
  rw [interfacePatches, written_append, written_append, written_kept, written_linePatches, ← terminateMembers_eq]
  simp [written, Patch.new]

theorem placed_interfacePatches {es : List Patch} (hbehind : behind.head?.any Text.isWord = false) (hn : IsHead n)
    (hb : ∀ c ∈ b, isFlat c = true) (hes : Placed ((n ++ '\x7b' :: (b ++ ['\x7d'])).reverse ++ behind).reverse es []) :
    Placed behind.reverse (interfacePatches n b es) [] := by
  have hlines : Placed (behind.reverse ++ (n ++ ['\x7b'])) (linePatches (Text.lines b)) ('\x7d' :: was es) :=
    placed_linePatches (by rwa [List.reverse_reverse]) hn _ [] (fun _ => Text.notMem_of_mem_lines)
      (by rwa [List.nil_append, Text.unlines_lines]) (Or.inl rfl)
  rw [interfacePatches, placed_append, placed_append, was_kept, was_linePatches, Text.unlines_lines, List.append_nil]
  refine ⟨placed_kept .., by simpa [was, Patch.old] using hlines, ?_⟩
  show Placed (behind.reverse ++ (n ++ ['\x7b']) ++ b ++ ['\x7d']) es []
  simpa using hes

theorem complete_interfacePatches {es : List Patch} (hn : IsHead n) (hb : ∀ c ∈ b, isFlat c = true)
    (hes : Complete ((n ++ '\x7b' :: (b ++ ['\x7d'])).reverse ++ behind) es) : Complete behind (interfacePatches n b es) := by
  intro u n' c p c' z' heq hedge hpart
  rw [was_interfacePatches] at heq
  rcases (hpart.opens z').itself_or_behind hn hb heq with ⟨rfl, rfl⟩ | ⟨k, rfl, hk⟩
  · obtain ⟨es₁, es₂, hlines, hwas⟩ := exists_linePatch hpart
    refine ⟨((u ++ n') ++ ['\x7b']).map .kept ++ es₁, endMember p, es₂ ++ .kept '\x7d' :: es, ?_, ?_⟩
    · rw [interfacePatches, hlines]
      simp
    · rw [was_append, was_kept, hwas]
      simp
  · obtain ⟨es₁, p', es₂, rfl, hwas⟩ := hes k n' c p c' z' hk (by simpa using hedge) hpart
    refine ⟨interfacePatches n b es₁, p', es₂, by simp [interfacePatches], ?_⟩
    rw [was_interfacePatches, hwas]
    simp

theorem Complete.cons {es : List Patch} {c : Char} (h : Complete (c :: behind) es)
    (hno : ∀ n b z, behind.head?.any Text.isWord = false → ¬ Opens (c :: was es) n b z) :
    Complete behind (.kept c :: es) := by
  intro u n b p b' z heq hedge hpart
  rcases u with _ | ⟨d, u⟩
  · refine absurd ?_ (hno n (b ++ (p ++ b')) z hedge)
    rw [show c :: was es = n ++ '\x7b' :: (b ++ (p ++ (b' ++ '\x7d' :: z))) from heq]
    exact hpart.opens z
  · obtain ⟨rfl, htail⟩ := List.cons.inj (show c :: was es = d :: _ from heq)
    obtain ⟨es₁, p', es₂, rfl, hwas⟩ := h u n b p b' z htail (by simpa using hedge) hpart
    exact ⟨.kept c :: es₁, p', es₂, rfl, congrArg _ hwas⟩

/-- **The repair is a list of patches**, each in its place, and none is missing. -/
theorem exists_patches (behind t : Text) : ∃ es, was es = t ∧ written es = interfaceBody.replaceFrom ended behind t ∧
    Placed behind.reverse es [] ∧ Complete behind es := by
  induction behind, t using interface_induction with
  | nil behind => exact ⟨[], rfl, (replaceFrom_nil _).symm, trivial, fun _ _ _ _ _ _ heq => by simp [was] at heq⟩
  | pass behind c t hno ih =>
    obtain ⟨es, rfl, hwritten, hplaced, hcomplete⟩ := ih
    rw [List.reverse_cons] at hplaced
    refine ⟨.kept c :: es, rfl, ?_, hplaced, hcomplete.cons hno⟩
    rw [replaceFrom_pass hno, ← hwritten]
    rfl
  | stop behind n b z hbehind hn hb ih =>
    obtain ⟨es, rfl, hwritten, hplaced, hcomplete⟩ := ih
    refine ⟨interfacePatches n b es, was_interfacePatches .., ?_, placed_interfacePatches hbehind hn hb hplaced,
      complete_interfacePatches hn hb hcomplete⟩
    rw [replaceFrom_interface hbehind ⟨rfl, hn, hb⟩, written_interfacePatches, ← hwritten]

/-! ### Rows -/

/-- The patches of a text fall into rows, one for each line. -/
theorem exists_rows {es : List Patch} (h : Placed before es z) : ∃ rows, rows ≠ [] ∧
    List.intercalate [.kept '\n'] rows = es ∧ ∀ row ∈ rows, '\n' ∉ was row ∧ '\n' ∉ written row := by
  induction es generalizing before with
  | nil => exact ⟨[[]], by simp, rfl, by simp [was, written]⟩
  | cons e es ih =>
    -- A patch without a line break begins the first of the rows.
    have hfirst (hrest : ∃ before, Placed before es z) (he : '\n' ∉ e.old ∧ '\n' ∉ e.new) : ∃ rows, rows ≠ [] ∧
        List.intercalate [.kept '\n'] rows = e :: es ∧ ∀ row ∈ rows, '\n' ∉ was row ∧ '\n' ∉ written row := by
      obtain ⟨before, hrest⟩ := hrest
      obtain ⟨rows, hne, rfl, hrows⟩ := ih hrest
      obtain ⟨row, rows, rfl⟩ := List.exists_cons_of_ne_nil hne
      rw [List.forall_mem_cons] at hrows
      refine ⟨(e :: row) :: rows, List.cons_ne_nil _ _, ?_, List.forall_mem_cons.2 ⟨?_, hrows.2⟩⟩
      · cases rows with
        | nil => rw [List.intercalate_singleton, List.intercalate_singleton]
        | cons row' rows => rw [List.intercalate_cons_cons, List.intercalate_cons_cons]; rfl
      · simp only [was, written, List.flatMap_cons, List.mem_append, not_or]
        exact ⟨⟨he.1, hrows.1.1⟩, he.2, hrows.1.2⟩
    cases e with
    | kept c =>
      by_cases hc : c = '\n'
      · subst hc
        obtain ⟨rows, hne, rfl, hrows⟩ := ih h
        obtain ⟨row, rows, rfl⟩ := List.exists_cons_of_ne_nil hne
        refine ⟨[] :: row :: rows, List.cons_ne_nil _ _, ?_, List.forall_mem_cons.2 ⟨by simp [was, written], hrows⟩⟩
        rw [List.intercalate_cons_cons]
        rfl
      · exact hfirst ⟨_, h⟩ (by simp [Patch.old, Patch.new, Ne.symm hc])
    | part p p' =>
      obtain ⟨hin, hfinished, hrest⟩ := h
      exact hfirst ⟨_, hrest⟩ ⟨hin.oneLine, hfinished.oneLine hin.oneLine⟩

/-- **The repair of interfaces is local to lines.** A second time nothing happens. The text has as many lines as before, and each
line of the result is written with the patches of the line that has its number: what lies outside of the bodies stays, and the
part of the line that lies inside a body stays too, or one semicolon takes the place of the spaces and tabs at its end; the
latter just if the part holds a member without terminator, so neither a semicolon nor a comma nor a comment. The patches lie
where they should, and no part of a line inside a body is left out. -/
theorem fixInterfaceSemicolons_lineLocal (t : Text) :
    fixInterfaceSemicolons (fixInterfaceSemicolons t) = fixInterfaceSemicolons t ∧
    (Text.lines (fixInterfaceSemicolons t)).length = (Text.lines t).length ∧
    ∃ rows : List (List Patch), rows.map was = Text.lines t ∧ rows.map written = Text.lines (fixInterfaceSemicolons t) ∧
      Placed [] (List.intercalate [.kept '\n'] rows) [] ∧ Complete [] (List.intercalate [.kept '\n'] rows) := by
  obtain ⟨es, hwas, hwritten, hplaced, hcomplete⟩ := exists_patches [] t
  rw [← fixInterfaceSemicolons_eq] at hwritten
  obtain ⟨rows, hne, rfl, hrows⟩ := exists_rows hplaced
  have hold : rows.map was = Text.lines t := by
    rw [← hwas, was, flatMap_rows rfl, Text.lines_unlines (by simpa using hne)]
    · rfl
    · exact List.forall_mem_map.2 fun row hrow => (hrows row hrow).1
  have hnew : rows.map written = Text.lines (fixInterfaceSemicolons t) := by
    rw [← hwritten, written, flatMap_rows rfl, Text.lines_unlines (by simpa using hne)]
    · rfl
    · exact List.forall_mem_map.2 fun row hrow => (hrows row hrow).2
  refine ⟨fixInterfaceSemicolons_idempotent t, ?_, rows, hold, hnew, hplaced, hcomplete⟩
  rw [← hold, ← hnew, List.length_map, List.length_map]

end LayeredFix.Pass.Hardening
