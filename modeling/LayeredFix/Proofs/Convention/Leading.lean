import LayeredFix.Proofs.Convention.FirstCode
import LayeredFix.Proofs.Text.Respelling

/-!
# Texts that a mark leads

A mark of client code leads a text if it is the first line of code (`leads`). What stands behind its line does not matter
(`Led.leads`), nor does the spelling of words without line breaks and comment signs (`leads_respelled`), nor what stands
inside of a block comment (`Sheltered.exchange`), unless the comment is closed there.
-/

namespace LayeredFix.Pass.Convention

open Text (Respelled)

variable {b c : Bool} {l : Text} {ls ls' : List Text}

/-! ### The mark as the first line of code -/

/-- Whether the first line of code is a mark; `inComment` says that the lines begin inside a block comment. -/
def leadsFrom (inComment : Bool) (ls : List Text) : Bool :=
  (ls[firstCodeIndexFrom inComment ls]?).any isDirectiveLine

/-- Whether the first line of code is a mark. -/
def leads (t : Text) : Bool := leadsFrom false (Text.lines t)

theorem leadsFrom_of_code (h : commentAfter b l = none) : leadsFrom b (l :: ls) = isDirectiveLine l := by
  rw [leadsFrom, firstCodeIndexFrom_of_code h]
  rfl

theorem leadsFrom_of_comment (h : commentAfter b l = some c) : leadsFrom b (l :: ls) = leadsFrom c ls := by
  rw [leadsFrom, firstCodeIndexFrom_of_comment h, List.getElem?_cons_succ]
  rfl

theorem passesComments_leadsFrom : PassesComments leadsFrom := fun _ _ _ _ => leadsFrom_of_comment

/-- Lines behind the first line of code do not matter. -/
theorem leadsFrom_append (h : leadsFrom b ls = true) (ls' : List Text) : leadsFrom b (ls ++ ls') = true := by
  induction ls generalizing b with
  | nil => cases h
  | cons l ls ih =>
    rw [List.cons_append]
    rcases hl : commentAfter b l with _ | c
    · rw [leadsFrom_of_code hl] at h ⊢
      exact h
    · rw [leadsFrom_of_comment hl] at h ⊢
      exact ih h

/-- The lines up to the first line of code are enough. -/
theorem leadsFrom_take (b : Bool) (ls : List Text) : leadsFrom b (ls.take (firstCodeIndexFrom b ls + 1)) = leadsFrom b ls := by
  induction ls generalizing b with
  | nil => rfl
  | cons l ls ih =>
    rw [List.take_succ_cons]
    rcases hl : commentAfter b l with _ | c
    · rw [leadsFrom_of_code hl, leadsFrom_of_code hl]
    · rw [leadsFrom_of_comment hl, leadsFrom_of_comment hl, firstCodeIndexFrom_of_comment hl, ih]

/-- A text that a mark leads holds a mark. -/
theorem hasClientDirective_of_leads {t : Text} (h : leads t = true) : Guard.hasClientDirective t = true := by
  obtain ⟨l, hl, hmark⟩ := (Option.any_eq_true _ _).1 h
  exact hasClientDirective_of_part (infix_of_isDirectiveLine hmark) (Text.infix_of_mem_lines (List.mem_of_getElem? hl))

theorem head?_of_isDirectiveLine (h : isDirectiveLine l = true) :
    ∃ d ∈ "/'\"".toList, (Text.trimLeft l).head? = some d := by
  have hall : ∀ l ∈ directiveLines, ∃ d ∈ "/'\"".toList, l.head? = some d := by decide
  obtain ⟨d, hd, hhead⟩ := hall _ (List.contains_iff_mem.1 h)
  obtain ⟨y, hy, -⟩ := Text.exists_trimRight (Text.trimLeft l)
  have hleft : Text.trimLeft l = Text.trim l ++ y := hy
  refine ⟨d, hd, ?_⟩
  rw [hleft, List.head?_append, hhead]
  rfl

/-- A text that a mark leads begins with a comment or with the mark. -/
theorem head?_of_leads {t : Text} (h : leads t = true) : ∃ d ∈ "/'\"".toList, (Text.trimLeft t).head? = some d := by
  have hfront {l r : Text} (hl : ∃ d ∈ "/'\"".toList, (Text.trimLeft l).head? = some d) :
      ∃ d ∈ "/'\"".toList, (Text.trimLeft (l ++ r)).head? = some d := by
    obtain ⟨d, hd, hhead⟩ := hl
    have hne : Text.trimLeft l ≠ [] := fun hnil => by
      rw [hnil] at hhead
      cases hhead
    refine ⟨d, hd, ?_⟩
    rw [Text.trimLeft_append hne, List.head?_append, hhead]
    rfl
  have hlines (ls : List Text) (h : leadsFrom false ls = true) :
      ∃ d ∈ "/'\"".toList, (Text.trimLeft (Text.unlines ls)).head? = some d := by
    induction ls with
    | nil => cases h
    | cons l ls ih =>
      rcases hc : commentAfter false l with _ | c
      · rw [leadsFrom_of_code hc] at h
        obtain ⟨r, hr⟩ := Text.exists_unlines_cons l ls
        rw [hr]
        exact hfront (head?_of_isDirectiveLine h)
      · have hslash {w : Text} (hw : '/' :: w <+: Text.trimLeft l) :
            ∃ d ∈ "/'\"".toList, (Text.trimLeft (Text.unlines (l :: ls))).head? = some d := by
          obtain ⟨r, hr⟩ := Text.exists_unlines_cons l ls
          obtain ⟨v, hv⟩ := hw
          rw [hr]
          exact hfront ⟨'/', by decide, by rw [← hv]; rfl⟩
        rw [leadsFrom_of_comment hc] at h
        obtain ⟨hblank | hline, rfl⟩ | ⟨hblock, -⟩ := commentAfter_false_eq_some_iff.1 hc
        · -- Blank lines are passed over.
          obtain ⟨l', ls, rfl⟩ := List.exists_cons_of_ne_nil (l := ls) fun hnil => by
            rw [hnil] at h
            cases h
          rw [Text.unlines_cons_cons, Text.trimLeft, List.dropWhile_append_of_pos hblank]
          exact ih h
        · exact hslash hline
        · exact hslash hblock
  have htext := hlines (Text.lines t) h
  rwa [Text.unlines_lines] at htext

/-- The mark leads the text, and its line is over. -/
def Led (a : Text) : Prop := ∃ u v, a = u ++ '\n' :: v ∧ leads u = true

theorem Led.append {a : Text} (h : Led a) (r : Text) : Led (a ++ r) := by
  obtain ⟨u, v, rfl, hu⟩ := h
  exact ⟨u, v ++ r, by rw [List.append_assoc, List.cons_append], hu⟩

/-- **What stands behind the line of the mark does not matter.** -/
theorem Led.leads {a : Text} (h : Led a) : leads a = true := by
  obtain ⟨u, v, rfl, hu⟩ := h
  rw [Convention.leads, Text.lines_append_newline]
  exact leadsFrom_append hu _

/-! ### The header -/

/-- The lines up to the first line of code. -/
def header (t : Text) : Text := Text.unlines ((Text.lines t).take (firstCodeIndex (Text.lines t) + 1))

theorem leads_header (t : Text) : leads (header t) = leads t := by
  have hne : (Text.lines t).take (firstCodeIndex (Text.lines t) + 1) ≠ [] := by
    simpa using Text.lines_ne_nil t
  rw [leads, header, Text.lines_unlines hne fun l hl => Text.notMem_of_mem_lines (List.mem_of_mem_take hl)]
  exact leadsFrom_take false (Text.lines t)

/-- The text `h` is a text up to the end of one of its lines. -/
def Heads (h t : Text) : Prop := ∃ r, t = h ++ r ∧ r.head?.all (· == '\n') = true

theorem heads_header (t : Text) : Heads (header t) t := by
  have hne : (Text.lines t).take (firstCodeIndex (Text.lines t) + 1) ≠ [] := by
    simpa using Text.lines_ne_nil t
  have htext : t = Text.unlines ((Text.lines t).take (firstCodeIndex (Text.lines t) + 1) ++
      (Text.lines t).drop (firstCodeIndex (Text.lines t) + 1)) := by
    rw [List.take_append_drop, Text.unlines_lines]
  generalize hrest : (Text.lines t).drop (firstCodeIndex (Text.lines t) + 1) = rest at htext
  rcases rest with _ | ⟨l, rest⟩
  · rw [List.append_nil] at htext
    exact ⟨[], htext.trans (List.append_nil _).symm, rfl⟩
  · rw [Text.unlines_append hne (List.cons_ne_nil l rest)] at htext
    exact ⟨_, htext, rfl⟩

/-- A text is led by the mark that leads its first lines. -/
theorem Heads.leads {h t : Text} (ht : Heads h t) (hh : leads h = true) : leads t = true := by
  obtain ⟨r, rfl, hr⟩ := ht
  rcases r with _ | ⟨d, r⟩
  · rwa [List.append_nil]
  · obtain rfl : d = '\n' := by simpa using hr
    exact Led.leads ⟨h, r, rfl, hh⟩

/-! ### Words that are not read -/

/-- Two spellings of a word that make no difference to where the first line of code is: no line begins, no comment opens or
closes in them, and no mark holds the word. -/
structure Unread (w w' : Text) : Prop where
  /-- The word begins with a character that is no blank. -/
  start : ∃ c v, w = c :: v ∧ Text.isBlank c = false
  /-- Something is written for it. -/
  ne_nil : w' ≠ []
  /-- Neither holds a line break or a part of a comment sign. -/
  inner : ∀ c ∈ "\n*/".toList, c ∉ w ∧ c ∉ w'
  /-- No mark holds it. -/
  quiet : ∃ c ∈ "&.".toList, c ∈ w

variable {l' : Text}

/-- What cannot begin a word is found again in front. -/
theorem prefix_trimLeft_respelled (h : Respelled Unread l l') {d : Char} (hd : d ∈ "*/".toList)
    (hl : ['/', d] <+: Text.trimLeft l) : ['/', d] <+: Text.trimLeft l' := by
  obtain ⟨r, hr⟩ := hl
  have hcut : l = l.takeWhile Text.isBlank ++ ['/', d] ++ r := by
    rw [List.append_assoc, hr]
    exact List.takeWhile_append_dropWhile.symm
  have hblanks : ∀ e ∈ l.takeWhile Text.isBlank, Text.isBlank e = true := List.all_eq_true.1 List.all_takeWhile
  generalize l.takeWhile Text.isBlank = blanks at hcut hblanks
  rw [hcut] at h
  obtain ⟨r', rfl, -⟩ := h.front fun w w' hw => by
    obtain ⟨e, v, rfl, he⟩ := hw.start
    have hslash := (hw.inner '/' (by decide)).1
    have hd' := (hw.inner d (List.mem_cons_of_mem _ hd)).1
    refine ⟨e, v, rfl, ?_⟩
    rw [List.mem_append, not_or]
    refine ⟨fun hmem => ?_, ?_⟩
    · rw [hblanks e hmem] at he
      cases he
    · simp only [List.mem_cons, not_or, List.not_mem_nil, or_false] at hslash hd' ⊢
      exact ⟨Ne.symm hslash.1, Ne.symm hd'.1⟩
  refine ⟨r', ?_⟩
  rw [List.append_assoc, List.cons_append, Text.trimLeft, List.dropWhile_append_of_pos hblanks]
  rfl

/-- The end of a comment stays one, if no word holds a part of it. -/
theorem closes_respelled {P : Text → Text → Prop} (hP : ∀ w w', P w w' → w ≠ [] ∧ ∀ c ∈ "*/".toList, c ∉ w)
    (h : Respelled P l l') (hl : "*/".toList <:+: l) : "*/".toList <:+: l' := by
  induction h with
  | nil => exact hl
  | @keep c t t' h ih =>
    rw [List.infix_cons_iff] at hl ⊢
    refine hl.imp (fun hpre => ?_) ih
    obtain ⟨rfl, r, rfl⟩ := List.cons_prefix_cons.1 hpre
    obtain ⟨r', rfl, -⟩ := Respelled.front (u := ['/']) (fun w w' hw => by
      obtain ⟨hne, hinner⟩ := hP _ _ hw
      obtain ⟨e, v, rfl⟩ := List.exists_cons_of_ne_nil hne
      exact ⟨e, v, rfl, fun hmem => hinner '/' (by decide) (by simp_all)⟩) h
    exact ⟨r', rfl⟩
  | word hw h ih =>
    have hinner := (hP _ _ hw).2
    refine (ih ((Text.infix_append_left_iff (by decide) fun c hc hmem => ?_).1 hl)).trans (List.suffix_append _ _).isInfix
    exact hinner c hmem hc

theorem occursIn_respelled (h : Respelled Unread l l') :
    Text.occursIn "*/".toList l' = Text.occursIn "*/".toList l := by
  have hsub {c : Char} (hc : c ∈ "*/".toList) : c ∈ "\n*/".toList := List.mem_cons_of_mem _ hc
  rw [Bool.eq_iff_iff, Text.occursIn_iff, Text.occursIn_iff]
  constructor
  · exact closes_respelled (fun w w' hw => ⟨hw.ne_nil, fun c hc => (hw.inner c (hsub hc)).2⟩) h.flip
  · refine closes_respelled (fun w w' hw => ?_) h
    obtain ⟨e, v, rfl, -⟩ := hw.start
    exact ⟨List.cons_ne_nil e v, fun c hc => (hw.inner c (hsub hc)).1⟩

/-- A line that is no code stays one, with the comment open or closed behind it. -/
theorem commentAfter_respelled (h : Respelled Unread l l') (hl : commentAfter b l = some c) :
    commentAfter b l' = some c := by
  cases b with
  | true => rw [commentAfter_true, occursIn_respelled h, ← commentAfter_true, hl]
  | false =>
    rw [commentAfter_false_eq_some_iff] at hl ⊢
    rcases hl with ⟨hblank | hline, rfl⟩ | ⟨hblock, rfl⟩
    · -- A line of blanks holds no word.
      obtain rfl : l' = l := h.eq_of_quiet (fun w w' hw => hw.quiet) fun d hd hmem => by
        have hno : ∀ d ∈ "&.".toList, Text.isBlank d = false := by decide
        exact absurd ((hno d hd).symm.trans (hblank d hmem)) (by decide)
      exact Or.inl ⟨Or.inl hblank, rfl⟩
    · exact Or.inl ⟨Or.inr (prefix_trimLeft_respelled h (by decide) hline), rfl⟩
    · rw [occursIn_respelled h]
      exact Or.inr ⟨prefix_trimLeft_respelled h (by decide) hblock, rfl⟩

/-- A mark stays as it is. -/
theorem eq_of_isDirectiveLine (h : Respelled Unread l l') (hl : isDirectiveLine l = true) : l' = l := by
  refine h.eq_of_quiet (fun w w' hw => hw.quiet) fun d hd hmem => ?_
  have hno : ∀ d ∈ "&.".toList, Text.isBlank d = false ∧ ∀ l ∈ directiveLines, d ∉ l := by decide
  exact (hno d hd).2 _ (List.contains_iff_mem.1 hl) (Text.mem_trim (hno d hd).1 hmem)

/-- Such words do not matter to what reads the lines up to the first line of code, if they do not matter to that line. -/
theorem scan_respelled {F : Bool → List Text → Bool} (hF : PassesComments F)
    (hcode : ∀ l l' ls ls', commentAfter false l = none → Respelled Unread l l' → F false (l :: ls) = true →
      F false (l' :: ls') = true) {t t' : Text} (h : Respelled Unread t t') (ht : F false (Text.lines t) = true) :
    F false (Text.lines t') = true := by
  have hlines (b : Bool) {ls ls' : List Text} (h : List.Forall₂ (Respelled Unread) ls ls') (hl : F b ls = true) :
      F b ls' = true := by
    induction h generalizing b with
    | nil => exact hl
    | @cons l l' ls ls' hl' hls ih =>
      rcases hc : commentAfter b l with _ | c
      · obtain rfl := eq_false_of_code hc
        exact hcode l l' ls ls' hc hl' hl
      · rw [hF _ _ _ _ hc] at hl
        rw [hF _ _ _ _ (commentAfter_respelled hl' hc)]
        exact ih c hl
  exact hlines false (h.lines fun _ _ hw => hw.inner '\n' (by decide)) ht

/-- **The spelling of such words does not matter.** -/
theorem leads_respelled {t t' : Text} (h : Respelled Unread t t') (ht : leads t = true) : leads t' = true := by
  refine scan_respelled passesComments_leadsFrom (fun l l' ls ls' hc hl' hl => ?_) h ht
  rw [leadsFrom_of_code hc] at hl
  obtain rfl := eq_of_isDirectiveLine hl' hl
  rwa [leadsFrom_of_code hc]

theorem endsInComment_respelled {t t' : Text} (h : Respelled Unread t t')
    (ht : endsInComment false (Text.lines t) = true) : endsInComment false (Text.lines t') = true := by
  refine scan_respelled passesComments_endsInComment (fun l l' ls ls' hc hl' hl => ?_) h ht
  rw [endsInComment, hc] at hl
  cases hl

theorem Led.respelled {a a' : Text} (h : Respelled Unread a a') (ha : Led a) : Led a' := by
  obtain ⟨u, v, rfl, hu⟩ := ha
  obtain ⟨u', v', rfl, hu'⟩ := h.flip.split (x := []) (fun w w' hw => by
    obtain ⟨e, y, rfl, -⟩ := hw.start
    refine ⟨(hw.inner '\n' (by decide)).1, (e :: y).dropLast, (e :: y).getLast (by simp), ?_, by simp⟩
    rw [List.dropLast_append_getLast])
  exact ⟨u', v', rfl, leads_respelled hu'.flip hu⟩

/-! ### Inside of comments -/

variable {a w w' z : Text}

/-- Where the mark leads the text and its line is over, or a comment is open, more may be put in. -/
def Sheltered (a : Text) : Prop := Led a ∨ endsInComment false (Text.lines a) = true

theorem Sheltered.respelled {a' : Text} (h : Respelled Unread a a') (ha : Sheltered a) : Sheltered a' :=
  ha.imp (Led.respelled h) (endsInComment_respelled h)

theorem leads_insert (ha : endsInComment false (Text.lines a) = true) (hw : Inert w) (hz : z.head? ≠ some '/') :
    leads (a ++ (w ++ z)) = leads (a ++ z) := by
  exact (scan_comment passesComments_leadsFrom ha hw).trans (scan_append passesComments_leadsFrom ha (Or.inr hz)).symm

/-- **Where it is sheltered, a text may be put in the place of another.** -/
theorem Sheltered.exchange (ha : Sheltered a) (hw : Inert w) (hw' : Inert w') (h : leads (a ++ (w ++ z)) = true) :
    leads (a ++ (w' ++ z)) = true := by
  rcases ha with ha | ha
  · exact (ha.append _).leads
  · have hread : leads (a ++ (w ++ z)) = leadsFrom true (Text.lines z) := scan_comment passesComments_leadsFrom ha hw
    exact (scan_comment passesComments_leadsFrom ha hw').trans (hread.symm.trans h)

theorem Sheltered.insert (ha : Sheltered a) (hw : Inert w) (hz : z.head? ≠ some '/') (h : leads (a ++ z) = true) :
    leads (a ++ (w ++ z)) = true := by
  rcases ha with ha | ha
  · exact (ha.append _).leads
  · rw [leads_insert ha hw hz, h]

/-- A place behind one where a text is put in stays sheltered. -/
theorem Sheltered.behind {k : Text} (ha : Sheltered a) (hw : Inert w) (hk : k.head? ≠ some '/') (h : Sheltered (a ++ k)) :
    Sheltered (a ++ (w ++ k)) := by
  by_cases hled : Led a
  · exact Or.inl (hled.append _)
  have hopen := ha.resolve_left hled
  rcases h with ⟨u, v, heq, hu⟩ | h
  · obtain ⟨k', rfl, rfl⟩ : ∃ k', u = a ++ k' ∧ k = k' ++ '\n' :: v := by
      rcases List.append_eq_append_iff.1 heq with h | ⟨y, rfl, hy⟩
      · exact h
      · rcases y with _ | ⟨d, y⟩
        · exact ⟨[], by rw [List.append_nil, List.append_nil], hy.symm⟩
        · obtain ⟨rfl, -⟩ := List.cons.inj hy
          exact absurd ⟨u, y, rfl, hu⟩ hled
    have hhead : k'.head? ≠ some '/' := fun hslash => hk (by rw [List.head?_append, hslash]; rfl)
    exact Or.inl ⟨a ++ (w ++ k'), v, by simp only [List.append_assoc], (leads_insert hopen hw hhead).trans hu⟩
  · have hread := scan_append passesComments_endsInComment hopen (Or.inr hk)
    exact Or.inr ((scan_comment passesComments_endsInComment hopen hw).trans (hread.symm.trans h))

end LayeredFix.Pass.Convention
