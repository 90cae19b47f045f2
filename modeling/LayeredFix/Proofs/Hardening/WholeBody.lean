import LayeredFix.Proofs.Hardening.Braces

/-!
# Whether the whole body is wrapped

The brace that closes a function is looked for by counting all braces, those in strings, templates, regular expressions and
comments too. Here a body is read as a script is (`IsScript`): every character is code or hidden. The braces of the code pair up, so
where the count ends depends on the hidden ones: early, at the end of the body, or late (`IsScript.ends_iff`). The text that is
wrapped is the whole body just if the hidden braces do not disturb the count (`addErrorHandling_wholeBody_iff`).
-/

namespace LayeredFix.Pass.Hardening

/-! ### Literals and comments -/

/-- A line of a script ends here. -/
def isLineEnd (c : Char) : Bool := c == '\n' || c == '\x0d' || c == '\u2028' || c == '\u2029'

/-- A string behind its first quotation mark. -/
inductive Quoted (mark : Char) : Text → Prop where
  /-- The second mark. -/
  | close : Quoted mark [mark]
  /-- A character of the string. -/
  | char {c : Char} {s : Text} (hc : c ∉ [mark, '\\', '\n', '\x0d']) (hs : Quoted mark s) : Quoted mark (c :: s)
  /-- A character that is escaped. -/
  | escape {c : Char} {s : Text} (hs : Quoted mark s) : Quoted mark ('\\' :: c :: s)
  /-- An escaped line break of two characters. -/
  | lineBreak {s : Text} (hs : Quoted mark s) : Quoted mark ('\\' :: '\x0d' :: '\n' :: s)

/-- A regular expression behind its first slash, or behind a bracket that opens a class of characters. -/
inductive Expression : (inClass : Bool) → Text → Prop where
  /-- The second slash. -/
  | close : Expression false ['/']
  /-- A character outside of a class. -/
  | char {c : Char} {s : Text} (hc : c ∉ ['/', '[', '\\']) (hline : isLineEnd c = false) (hs : Expression false s) :
      Expression false (c :: s)
  /-- A class is opened. -/
  | openClass {s : Text} (hs : Expression true s) : Expression false ('[' :: s)
  /-- A character of a class. -/
  | classChar {c : Char} {s : Text} (hc : c ∉ [']', '\\']) (hline : isLineEnd c = false) (hs : Expression true s) :
      Expression true (c :: s)
  /-- A class is closed. -/
  | closeClass {s : Text} (hs : Expression false s) : Expression true (']' :: s)
  /-- A character that is escaped. -/
  | escape {inClass : Bool} {c : Char} {s : Text} (hline : isLineEnd c = false) (hs : Expression inClass s) :
      Expression inClass ('\\' :: c :: s)

/-- A string, a regular expression or a comment. -/
inductive IsLiteral : Text → Prop where
  /-- A string in quotation marks of one kind. -/
  | string {mark : Char} {s : Text} (hmark : mark ∈ ['"', '\'']) (hs : Quoted mark s) : IsLiteral (mark :: s)
  /-- A regular expression. Behind a slash a second one or a star would begin a comment. -/
  | expression {c : Char} {s : Text} (hc : c ∉ ['/', '*']) (hs : Expression false (c :: s)) : IsLiteral ('/' :: c :: s)
  /-- A comment to the end of its line. -/
  | lineComment {s : Text} {c : Char} (hs : ∀ d ∈ s, isLineEnd d = false) (hc : isLineEnd c = true) :
      IsLiteral ("//".toList ++ (s ++ [c]))
  /-- A comment to the first mark that closes it. -/
  | blockComment {s : Text} (hs : ¬ "*/".toList <:+: s ++ ['*']) : IsLiteral ("/*".toList ++ (s ++ "*/".toList))

/-! ### Bodies -/

/-- A character of a script, and whether it is hidden: part of a string, a template, a regular expression or a comment. -/
structure Sign where
  char : Char
  hidden : Bool

/-- A text that is code. -/
def plain (t : Text) : List Sign := t.map fun c => ⟨c, false⟩

/-- A text that is hidden. -/
def hide (t : Text) : List Sign := t.map fun c => ⟨c, true⟩

/-- The text that is read. -/
def chars (r : List Sign) : Text := r.map Sign.char

/-- What is code of it. -/
def codePart (r : List Sign) : Text := chars (r.filter fun s => !s.hidden)

/-- What is hidden of it. -/
def hiddenPart (r : List Sign) : Text := chars (r.filter Sign.hidden)

/-- Where a reading begins. -/
inductive Place where
  /-- In code. -/
  | code
  /-- Inside a template. -/
  | template

/-- No brace, and the beginning of nothing that is hidden. -/
def isPlain (c : Char) : Bool := !(['\x7b', '\x7d', '"', '\'', '\x60', '/'].elem c)

/-- A reading of a body, or of what is left of it, from a place in it. Whether a slash divides or begins a regular expression
depends on the grammar, so a text with slashes can have several readings. Text between the tags of elements is read as code. -/
inductive IsScript : Place → List Sign → Prop where
  /-- The body ends. -/
  | done : IsScript .code []
  /-- A character of code. -/
  | char {c : Char} {r : List Sign} (hc : isPlain c = true) (hr : IsScript .code r) : IsScript .code (⟨c, false⟩ :: r)
  /-- A slash that divides. -/
  | slash {r : List Sign} (hnext : r.head?.all fun s => s.char != '/' && s.char != '*') (hr : IsScript .code r) :
      IsScript .code (⟨'/', false⟩ :: r)
  /-- Braces of the code and what is between them. -/
  | block {a r : List Sign} (ha : IsScript .code a) (hr : IsScript .code r) :
      IsScript .code (⟨'\x7b', false⟩ :: (a ++ ⟨'\x7d', false⟩ :: r))
  /-- A string, a regular expression or a comment. -/
  | literal {s : Text} {r : List Sign} (hs : IsLiteral s) (hr : IsScript .code r) : IsScript .code (hide s ++ r)
  /-- A template begins. -/
  | enter {r : List Sign} (hr : IsScript .template r) : IsScript .code (⟨'\x60', true⟩ :: r)
  /-- The template ends. -/
  | leave {r : List Sign} (hr : IsScript .code r) : IsScript .template (⟨'\x60', true⟩ :: r)
  /-- A character of the template. -/
  | chunk {c : Char} {r : List Sign} (hc : c ∉ ['\x60', '\\']) (hnext : c = '$' → r.head?.all fun s => s.char != '\x7b')
      (hr : IsScript .template r) : IsScript .template (⟨c, true⟩ :: r)
  /-- A character of the template that is escaped. -/
  | escape {c : Char} {r : List Sign} (hr : IsScript .template r) : IsScript .template (⟨'\\', true⟩ :: ⟨c, true⟩ :: r)
  /-- Code inside the template, between braces of the code. -/
  | substitution {a r : List Sign} (ha : IsScript .code a) (hr : IsScript .template r) :
      IsScript .template (⟨'$', true⟩ :: ⟨'\x7b', false⟩ :: (a ++ ⟨'\x7d', false⟩ :: r))

variable {p : Place} {r : List Sign} {t b z z' : Text} {c : Char}

theorem IsScript.plain_append (ht : ∀ c ∈ t, isPlain c = true) (hr : IsScript .code r) : IsScript .code (plain t ++ r) := by
  induction t with
  | nil => exact hr
  | cons c t ih =>
    rw [List.forall_mem_cons] at ht
    exact .char ht.1 (ih ht.2)

theorem codePart_append (r r' : List Sign) : codePart (r ++ r') = codePart r ++ codePart r' := by
  simp [codePart, chars]

theorem codePart_hide (t : Text) : codePart (hide t) = [] := by
  simp [codePart, chars, hide]

/-! ### Braces -/

theorem rise_chars (r : List Sign) : rise (chars r) = rise (codePart r) + rise (hiddenPart r) := by
  have hcount (c : Char) : (chars r).count c = (codePart r).count c + (hiddenPart r).count c := by
    induction r with
    | nil => rfl
    | cons s r ih =>
      obtain ⟨d, h⟩ := s
      cases h <;> simp [chars, codePart, hiddenPart, List.count_cons] at ih ⊢ <;> omega
  simp only [rise, hcount]
  omega

/-- **The braces of the code pair up.** -/
theorem IsScript.level_codePart (h : IsScript p r) (depth : Nat) : level depth (codePart r) = some depth := by
  have hblock {a r : List Sign} (ha : ∀ depth, level depth (codePart a) = some depth)
      (hr : ∀ depth, level depth (codePart r) = some depth) (depth : Nat) :
      level depth ('\x7b' :: (codePart a ++ '\x7d' :: codePart r)) = some depth := by
    simp [level, level_append, ha, hr]
  induction h generalizing depth with
  | done => rfl
  | @char c r hc hr ih =>
    have hbrace : c ≠ '\x7b' ∧ c ≠ '\x7d' := by
      constructor <;> rintro rfl <;> exact absurd hc (by decide)
    show level depth (c :: codePart r) = some depth
    rw [level, if_neg hbrace.1, if_neg hbrace.2, ih]
  | slash hnext hr ih => exact ih depth
  | block ha hr iha ihr =>
    rw [← List.singleton_append, codePart_append, codePart_append]
    exact hblock iha ihr depth
  | literal hs hr ih => rw [codePart_append, codePart_hide, List.nil_append, ih]
  | enter hr ih => exact ih depth
  | leave hr ih => exact ih depth
  | chunk hc hnext hr ih => exact ih depth
  | escape hr ih => exact ih depth
  | @substitution a r ha hr iha ihr =>
    show level depth (codePart (⟨'\x7b', false⟩ :: (a ++ ⟨'\x7d', false⟩ :: r))) = some depth
    rw [← List.singleton_append, codePart_append, codePart_append]
    exact hblock iha ihr depth

theorem IsScript.rise_chars_eq (h : IsScript p r) : rise (chars r) = rise (hiddenPart r) := by
  have hcode := (level_eq_some_iff.1 (h.level_codePart 0)).2
  rw [rise_chars]
  omega

/-- If the hidden braces pair up among themselves, all braces do. -/
theorem IsScript.level_chars (h : IsScript p r) (hhidden : level 0 (hiddenPart r) = some 0) : level 0 (chars r) = some 0 := by
  rw [level_eq_some_iff] at hhidden ⊢
  refine ⟨fun q hq => ?_, by rw [h.rise_chars_eq]; exact hhidden.2⟩
  -- A front part of the text is read as a front part of the reading is, and so are its code and what it hides.
  obtain ⟨f, hf, rfl⟩ := List.prefix_map_iff.1 hq
  have hcode := (level_eq_some_iff.1 (h.level_codePart 0)).1 (codePart f) ((hf.filter _).map _)
  have hrest := hhidden.1 (hiddenPart f) ((hf.filter _).map _)
  have hsum := rise_chars f
  rw [chars] at hsum
  omega

/-- Of two closing braces of a text either one stands in front of the other, or they are the same. -/
theorem cut_trichotomy {b' : Text} (h : b ++ '\x7d' :: z = b' ++ '\x7d' :: z') :
    (∃ m, b' = b ++ '\x7d' :: m) ∨ b = b' ∨ ∃ m, b = b' ++ '\x7d' :: m := by
  rcases List.append_eq_append_iff.1 h with ⟨x, hx, hrest⟩ | ⟨x, hx, hrest⟩
  · rcases x with _ | ⟨c, x⟩
    · exact Or.inr (Or.inl (by simpa using hx.symm))
    · obtain ⟨rfl, -⟩ := List.cons.inj hrest
      exact Or.inl ⟨x, hx⟩
  · rcases x with _ | ⟨c, x⟩
    · exact Or.inr (Or.inl (by simpa using hx))
    · obtain ⟨rfl, -⟩ := List.cons.inj hrest
      exact Or.inr (Or.inr ⟨x, hx⟩)

/-- **Where the count of braces ends** in a body: at its end, if nowhere more braces have been closed than opened, and as many
hidden braces are opened as closed; inside the body, if somewhere more have been closed; and else behind it. -/
theorem IsScript.ends_iff (h : IsScript .code r) (hb : level 0 b = some 0)
    (hcut : b ++ '\x7d' :: z = chars r ++ '\x7d' :: z') :
    (b = chars r ↔ NeverBelow 0 (chars r) ∧ rise (hiddenPart r) = 0) ∧
    ((∃ m, chars r = b ++ '\x7d' :: m) ↔ ¬ NeverBelow 0 (chars r)) ∧
    ((∃ m, b = chars r ++ '\x7d' :: m) ↔ NeverBelow 0 (chars r) ∧ 0 < rise (hiddenPart r)) := by
  obtain ⟨hfront, hrise⟩ := level_eq_some_iff.1 hb
  have hearly : (∃ m, chars r = b ++ '\x7d' :: m) → ¬ NeverBelow 0 (chars r) := by
    rintro ⟨m, hm⟩ hnever
    -- The count is at zero in front of the brace, so the brace takes it below.
    have hbrace := hnever (b ++ ['\x7d']) ⟨m, by rw [hm]; simp⟩
    rw [rise_append, rise_close, rise_nil] at hbrace
    omega
  have hwhole : b = chars r → NeverBelow 0 (chars r) ∧ rise (hiddenPart r) = 0 := by
    rintro rfl
    rw [← h.rise_chars_eq]
    exact ⟨hfront, by simpa using hrise⟩
  have hlate : (∃ m, b = chars r ++ '\x7d' :: m) → NeverBelow 0 (chars r) ∧ 0 < rise (hiddenPart r) := by
    rintro ⟨m, rfl⟩
    refine ⟨fun q hq => hfront q (hq.trans (List.prefix_append ..)), ?_⟩
    -- The count goes on behind the brace of the function, so it is above zero in front of it.
    have hbrace := hfront (chars r ++ ['\x7d']) ⟨m, by simp⟩
    rw [rise_append, rise_close, rise_nil, h.rise_chars_eq] at hbrace
    omega
  rcases cut_trichotomy hcut with he | hw | hl
  · have hno := hearly he
    exact ⟨⟨hwhole, fun hn => absurd hn.1 hno⟩, ⟨hearly, fun _ => he⟩, ⟨hlate, fun hn => absurd hn.1 hno⟩⟩
  · have hyes := hwhole hw
    exact ⟨⟨hwhole, fun _ => hw⟩, ⟨hearly, fun hn => absurd hyes.1 hn⟩, ⟨hlate, fun hn => absurd hn.2 (by omega)⟩⟩
  · have hyes := hlate hl
    exact ⟨⟨hwhole, fun hn => absurd hn.2 (by omega)⟩, ⟨hearly, fun hn => absurd hyes.1 hn⟩, ⟨hlate, fun _ => hl⟩⟩

/-! ### The body that is wrapped -/

variable {u k k' v : Text}

/-- An arrow function at the beginning of a text is the one that is wrapped. -/
theorem Wraps.of_leading (h : Wraps (k' ++ '\x7b' :: v) u k b z) (hk : IsArrow k') (hv : EndsLine v) :
    u = [] ∧ k = k' ∧ b ++ '\x7d' :: z = v := by
  obtain rfl : u = [] := by
    by_contra hne
    exact h.first [] u k' v rfl hne rfl hk hv h.text.symm
  obtain ⟨rfl, rfl⟩ := h.arrow.unique hk h.text.symm
  exact ⟨rfl, rfl, rfl⟩

/-- **Whether error handling wraps the whole body.** A text that changes holds an arrow function whose first line up to its brace
is `k`, and of what is behind that brace `b` is wrapped. However the text behind the brace is read as the body of the function, the
brace that closes it and the rest: the body is wrapped as a whole just if no front part of it closes more braces than it opens,
hidden braces counted, and its hidden braces open as many as they close. The block ends inside the body just if some front part
closes more, and it goes on behind the body just if none does and more hidden braces are opened. -/
theorem addErrorHandling_wholeBody_iff (hchanged : addErrorHandling t ≠ t) : ∃ u k b z i, Wraps t u k b z ∧
    addErrorHandling t = u ++ (k ++ (wrapBody i (core b) ++ z)) ∧
    ∀ r z', IsScript .code r → b ++ '\x7d' :: z = chars r ++ '\x7d' :: z' →
      (b = chars r ↔ NeverBelow 0 (chars r) ∧ rise (hiddenPart r) = 0) ∧
      ((∃ m, chars r = b ++ '\x7d' :: m) ↔ ¬ NeverBelow 0 (chars r)) ∧
      ((∃ m, b = chars r ++ '\x7d' :: m) ↔ NeverBelow 0 (chars r) ∧ 0 < rise (hiddenPart r)) := by
  rcases addErrorHandling_cases t with ⟨-, heq⟩ | ⟨-, u, k, b, z, i, hw, -, heq⟩
  · exact absurd heq hchanged
  · exact ⟨u, k, b, z, i, hw, heq, fun r z' hr hcut => hr.ends_iff hw.closed hcut⟩

/-- The first line of a function up to its brace. -/
def loadLine : Text := "const load = async () => ".toList

theorem isArrow_loadLine : IsArrow loadLine :=
  ⟨[], "load".toList, [], rfl, by simp, by decide, by simp⟩

/-- A body with braces in a template, a string and a comment, which pair up. -/
def pairedBody : List Sign :=
  plain "\n  await go(".toList ++ (⟨'\x60', true⟩ :: ⟨'$', true⟩ :: ⟨'\x7b', false⟩ :: (plain "id".toList ++
    ⟨'\x7d', false⟩ :: ⟨'\x60', true⟩ :: (plain ", ".toList ++ (hide "\"\x7b\x7d\"".toList ++ (plain "); ".toList ++
      (hide "// \x7b\x7d\n".toList ++ []))))))

theorem isScript_pairedBody : IsScript .code pairedBody := by
  have hstring : IsLiteral "\"\x7b\x7d\"".toList :=
    .string (by decide) (.char (by decide) (.char (by decide) .close))
  have hcomment : IsLiteral "// \x7b\x7d\n".toList :=
    .lineComment (s := " \x7b\x7d".toList) (c := '\n') (by decide) (by decide)
  have hrest : IsScript .code (plain ", ".toList ++ (hide "\"\x7b\x7d\"".toList ++ (plain "); ".toList ++
      (hide "// \x7b\x7d\n".toList ++ [])))) :=
    .plain_append (by decide) (.literal hstring (.plain_append (by decide) (.literal hcomment .done)))
  have hinner : IsScript .code (plain "id".toList ++ []) := .plain_append (by decide) .done
  rw [List.append_nil] at hinner
  exact .plain_append (by decide) (.enter (.substitution hinner (.leave hrest)))

/-- The body of this function is wrapped as a whole. -/
theorem addErrorHandling_wholeBody_pairedBody :
    addErrorHandling (loadLine ++ '\x7b' :: (chars pairedBody ++ "\x7d;".toList)) ≠
      loadLine ++ '\x7b' :: (chars pairedBody ++ "\x7d;".toList) ∧
    Wraps (loadLine ++ '\x7b' :: (chars pairedBody ++ "\x7d;".toList)) [] loadLine (chars pairedBody) [';'] := by
  have hchanged : addErrorHandling (loadLine ++ '\x7b' :: (chars pairedBody ++ "\x7d;".toList)) ≠
      loadLine ++ '\x7b' :: (chars pairedBody ++ "\x7d;".toList) := by
    decide +kernel
  obtain ⟨u, k, b, z, i, hw, -, hends⟩ := addErrorHandling_wholeBody_iff hchanged
  obtain ⟨rfl, rfl, hcut⟩ := hw.of_leading isArrow_loadLine ⟨[], _, rfl, by simp, by decide⟩
  have hlevel : level 0 (chars pairedBody) = some 0 := isScript_pairedBody.level_chars (by decide)
  obtain ⟨hnever, -⟩ := level_eq_some_iff.1 hlevel
  obtain rfl := (hends pairedBody [';'] isScript_pairedBody hcut).1.2 ⟨hnever, by decide⟩
  obtain ⟨-, rfl⟩ := List.cons.inj (List.append_cancel_left hcut)
  exact ⟨hchanged, hw⟩

/-- A body with a string that holds a brace. -/
def closingString : List Sign :=
  plain "\n  await go(".toList ++ (hide "\"\x7d\"".toList ++ (plain ");\n".toList ++ []))

/-- The brace where the body of this function is taken to end is the one inside of the string, and the string is torn in two. -/
theorem addErrorHandling_splits_string : IsScript .code closingString ∧
    (∃ f g, closingString = f ++ ⟨'\x7d', true⟩ :: g ∧
      closingBrace (loadLine ++ '\x7b' :: (chars closingString ++ "\x7d;".toList)) loadLine.length =
        some (loadLine ++ '\x7b' :: chars f).length) ∧
    addErrorHandling (loadLine ++ '\x7b' :: (chars closingString ++ "\x7d;".toList)) =
      ("const load = async () => \x7b\n  try \x7b\n    await go(\"\n  \x7d catch (error) \x7b\n" ++
        "    console.error(\"Error:\", error);\n  \x7d\n\x7d\");\n\x7d;").toList := by
  have hstring : IsLiteral "\"\x7d\"".toList := .string (by decide) (.char (by decide) .close)
  refine ⟨.plain_append (by decide) (.literal hstring (.plain_append (by decide) .done)),
    ⟨plain "\n  await go(".toList ++ hide "\"".toList, hide "\"".toList ++ plain ");\n".toList, rfl, ?_⟩, ?_⟩
  · decide +kernel
  · decide +kernel

end LayeredFix.Pass.Hardening
