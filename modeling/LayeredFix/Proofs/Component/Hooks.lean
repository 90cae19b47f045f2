import LayeredFix.Proofs.Component.FixedPoint

/-!
# Calls of hooks in component code

The pass over component code makes no call of a hook that was not there (`infix_transform`): the key of an element holds
parts of the callback only, and what is written is set apart by characters that no call holds. So the import that it
puts in front (`transform_imports`) names all the hooks that are called after the pass.
-/

namespace LayeredFix.Pass.Component

open Pattern

/-! ### Calls -/

/-- The calls of the known hooks, up to the bracket. -/
def hookWords : List Text := knownHooks.map fun hook => (hook ++ "(").toList

/-- The characters of calls. -/
def hookChars : Text := "useStateEffectCallbackMemoRef(".toList

variable {w : Text}

theorem notMem_hookWord (hw : w ∈ hookWords) {d : Char} (hd : d ∉ hookChars) : d ∉ w := by
  have hall : ∀ w ∈ hookWords, ∀ c ∈ w, c ∈ hookChars := by decide
  exact fun hmem => hd (hall w hw d hmem)

/-- A call holds a bracket at its end only. -/
theorem hookWord_eq (hw : w ∈ hookWords) : ∃ name, w = name ++ ['('] ∧ '(' ∉ name := by
  have hall : ∀ w ∈ hookWords, w = w.dropLast ++ ['('] ∧ '(' ∉ w.dropLast := by decide
  exact ⟨_, hall w hw⟩

theorem not_infix_of_bracket_notMem (hw : w ∈ hookWords) {t : Text} (ht : '(' ∉ t) : ¬ w <:+: t := by
  obtain ⟨name, rfl, -⟩ := hookWord_eq hw
  exact fun h => ht (h.subset (by simp))

/-- Behind a bracket a call begins anew. -/
theorem infix_of_bracket (hw : w ∈ hookWords) {u v : Text} (h : w <:+: u ++ '(' :: v) (hu : ¬ w <:+: u ++ ['(']) :
    w <:+: v := by
  obtain ⟨name, rfl, hname⟩ := hookWord_eq hw
  exact (Text.infix_append_cons_last hname h).resolve_left hu

theorem mem_hooksCalled {hook : String} {t : Text} :
    hook ∈ hooksCalled t ↔ hook ∈ knownHooks ∧ (hook ++ "(").toList <:+: t := by
  rw [hooksCalled, List.mem_filter, Text.occursIn_iff]

/-! ### Keys -/

/-- The parts of what is written for the front of a match. Every call in them was there. -/
theorem Opens.parts {front front' : Text} (h : Opens front front') : ∃ item index tag key,
    front' = keyedOpening item index tag key [] ∧ (∀ c ∈ tag, Text.isWord c = true) ∧
      ∀ w ∈ hookWords, w <:+: item ∨ w <:+: index ∨ w <:+: key → w <:+: front := by
  cases h with
  | single before item b₁ b₂ tag hfront hfront' _ hitem htag =>
    have hno : ∀ w ∈ hookWords, ¬ w <:+: item := fun w hw =>
      not_infix_of_bracket_notMem hw (notMem_of_isItemChar hitem (by decide))
    refine ⟨item, "index".toList, tag, itemKey item, hfront', htag, fun w hw h => ?_⟩
    rcases h with h | h | h
    · exact absurd h (hno w hw)
    · exact absurd h (not_infix_of_bracket_notMem hw (by decide))
    · have hend : ".id ?? index".toList = '.' :: "id ?? index".toList := by decide
      rw [itemKey, hend, Text.infix_append_cons_iff (notMem_hookWord hw (by decide))] at h
      exact h.elim (fun h => absurd h (hno w hw)) fun h => absurd h (not_infix_of_bracket_notMem hw (by decide))
  | double before item b₁ index b₂ b₃ tag hfront hfront' _ _ _ htag =>
    have hitem : item <:+: front := by
      rw [hfront]
      exact ⟨".map(".toList ++ before ++ ['('], _, by simp only [List.append_assoc, List.cons_append, List.nil_append]; rfl⟩
    have hindex : Text.trim index <:+: front := by
      refine (Text.trim_infix index).trans ?_
      rw [hfront]
      exact ⟨".map(".toList ++ before ++ '(' :: (item ++ ',' :: b₁), _, by
        simp only [List.append_assoc, List.cons_append]; rfl⟩
    refine ⟨item, Text.trim index, tag, Text.trim index, hfront', htag, fun w _ h => ?_⟩
    rcases h with h | h | h
    · exact h.trans hitem
    · exact h.trans hindex
    · exact h.trans hindex

/-- What stands between characters that no call holds. -/
theorem infix_of_apart (hw : w ∈ hookWords) {d : Char} (hd : d ∉ hookChars) {u v : Text} (h : w <:+: u ++ d :: v) :
    w <:+: u ∨ w <:+: v := (Text.infix_append_cons_iff (notMem_hookWord hw hd)).1 h

theorem not_infix_map (hw : w ∈ hookWords) : ¬ w <:+: "map(".toList ++ ['('] := by
  have hall : ∀ w ∈ hookWords, Text.occursIn w ("map(".toList ++ ['(']) = false := by decide
  rw [← Text.occursIn_iff, hall w hw]
  decide

/-- A call in what is written for a list stands in one of its parts. -/
theorem infix_keyedOpening (hw : w ∈ hookWords) {item index tag key tail : Text}
    (htag : ∀ c ∈ tag, Text.isWord c = true) (h : w <:+: (keyedOpening item index tag key tail).tail) :
    (w <:+: item ∨ w <:+: index ∨ w <:+: key) ∨ w <:+: tail := by
  have hno {t : Text} (ht : '(' ∉ t) : ¬ w <:+: t := not_infix_of_bracket_notMem hw ht
  have hbracket : "map((".toList = "map(".toList ++ ['('] := by decide
  have hkey : "key=\x7b".toList = "key=".toList ++ ['\x7b'] := by decide
  rw [keyedOpening_eq, List.tail_cons, hbracket, hkey, List.append_assoc "key=".toList, List.singleton_append] at h
  rcases infix_of_apart hw (by decide) h with h | h
  · rw [List.append_assoc, List.singleton_append] at h
    exact Or.inl (Or.inl (infix_of_bracket hw h (not_infix_map hw)))
  rcases infix_of_apart hw (by decide) h with h | h
  · exact Or.inl (Or.inr (Or.inl ((infix_of_apart (u := []) hw (by decide) h).resolve_left (hno (by simp)))))
  rcases infix_of_apart hw (by decide) h with h | h
  · exact absurd h (hno (by decide))
  rcases infix_of_apart hw (by decide) h with h | h
  · exact absurd h (hno fun hmem => absurd (htag _ hmem) (by decide))
  rcases infix_of_apart hw (by decide) h with h | h
  · exact absurd h (hno (by decide))
  rcases infix_of_apart hw (by decide) h with h | h
  · exact Or.inl (Or.inr (Or.inr h))
  · exact Or.inr h

/-- What is written for a list is set apart from what is around it, and makes no call. -/
theorem Rewriting.detached {name : Text} (hw : name ++ ['('] ∈ hookWords) {matched written : Text}
    (h : Rewriting matched written) : Detached name '(' matched written := by
  have hd {d : Char} (hd : d ∉ hookChars) : d ∉ name ++ ['('] := notMem_hookWord hw hd
  obtain ⟨front, front', body, back, back', rfl, hopen, hclose, heq | heq⟩ := h
  · exact Or.inl heq
  · obtain ⟨z, b, last, rfl, rfl, hz, hlast⟩ := hclose.ending
    obtain ⟨item, index, tag, key, rfl, htag, hparts⟩ := hopen.parts
    have hlast' : last ∉ name ++ ['('] := by
      rcases hlast with rfl | rfl <;> exact hd (by decide)
    refine Or.inr ⟨[], '.', (keyedOpening item index tag key (body ++ [z])).tail, last, ?_, by simp, hd (by decide),
      hlast', fun hin => ?_⟩
    · rw [heq, keyedOpening_append, keyedOpening_eq, keyedOpening_eq]
      simp
    · rcases infix_keyedOpening hw htag hin with hin | hin
      · exact (hparts _ hw hin).trans (List.prefix_append _ _).isInfix
      · have hback : body ++ [z] <:+: body ++ z :: (b ++ [last]) := ⟨[], b ++ [last], by simp⟩
        exact (hin.trans hback).trans (List.suffix_append _ _).isInfix

theorem infix_addMissingKeys (hw : w ∈ hookWords) {t : Text} (h : w <:+: addMissingKeys t) : w <:+: t := by
  obtain ⟨name, rfl, -⟩ := hookWord_eq hw
  have hfold (rules : List KeyRule) (hrules : ∀ r ∈ rules, r ∈ keyRules) (t : Text)
      (h : name ++ ['('] <:+: rules.foldl (fun t r => r.apply t) t) : name ++ ['('] <:+: t := by
    induction rules generalizing t with
    | nil => exact h
    | cons r rules ih =>
      rw [List.forall_mem_cons] at hrules
      exact infix_of_infix_replace (fun _ _ _ hh => (KeyRule.rewriting hrules.1 hh).detached hw) (ih hrules.2 _ h)
  exact hfold keyRules (fun _ h => h) t (addMissingKeys_eq t ▸ h)

/-! ### Alternative texts and imports -/

theorem infix_addMissingAlt (hw : w ∈ hookWords) {t : Text} (h : w <:+: addMissingAlt t) : w <:+: t := by
  obtain ⟨name, rfl, -⟩ := hookWord_eq hw
  have hd {d : Char} (hd : d ∉ hookChars) : d ∉ name ++ ['('] := notMem_hookWord hw hd
  refine infix_of_infix_replace (fun _ _ hit hh => ?_) h
  obtain ⟨x, rest, cut, -, htext, rfl, -⟩ := tag_of_hit? hh
  unfold giveAlt
  split
  · exact Or.inl rfl
  · have hopen : "<img".toList = '<' :: "img".toList := by decide
    have hend : " alt=\"\" />".toList = ' ' :: "alt=\"\" /".toList ++ ['>'] := by decide
    refine Or.inr ⟨[], '<', "img".toList ++ hit.group 1 ++ ' ' :: "alt=\"\" /".toList, '>', ?_, by simp, hd (by decide),
      hd (by decide), fun hin => ?_⟩
    · rw [hopen, hend]
      simp
    · have hgroup := (infix_of_apart hw (by decide) hin).resolve_right (not_infix_of_bracket_notMem hw (by decide))
      rw [htext, hopen]
      exact hgroup.trans ⟨['<'], cut ++ ['>'], by simp⟩

/-- An import statement ends in a line break. -/
theorem exists_hookImport_eq_append (hooks : List String) : ∃ x, hookImport hooks = x ++ ['\n'] := by
  have hlast : ";\n\n".toList = ";\n".toList ++ ['\n'] := by decide
  refine ⟨importHead hooks ++ '\'' :: ("react".toList ++ '\'' :: ";\n".toList), ?_⟩
  rw [hookImport_eq, hlast]
  simp

/-- An import statement calls nothing. -/
theorem infix_hookImport (hw : w ∈ hookWords) {hooks : List String} (hhooks : ∀ hook ∈ hooks, hook ∈ knownHooks) {t : Text}
    (h : w <:+: hookImport hooks ++ t) : w <:+: t := by
  have hno : '(' ∉ hookImport hooks := notMem_hookImport hhooks (by decide) (by decide) (by decide)
  obtain ⟨x, hx⟩ := exists_hookImport_eq_append hooks
  rw [hx] at h hno
  rw [List.append_assoc, List.singleton_append] at h
  refine (infix_of_apart hw (by decide) h).resolve_left (not_infix_of_bracket_notMem hw fun hmem => hno ?_)
  exact List.mem_append_left _ hmem

/-- **The pass makes no call of a hook.** -/
theorem infix_transform (hw : w ∈ hookWords) {t : Text} (h : w <:+: transform t) : w <:+: t := by
  have h := infix_addMissingKeys hw (infix_addMissingAlt hw h)
  rcases addMissingImports_cases t with heq | ⟨hooks, hhooks, heq⟩
  · rwa [heq] at h
  · rw [heq] at h
    exact infix_hookImport hw hhooks h

/-- A text that calls hooks, known ones among them, and has no import that mentions the library. -/
structure LacksImport (t : Text) : Prop where
  /-- Hooks are called. -/
  calls : hookCall.occursIn t = true
  /-- No import mentions the library. -/
  imports : (importStatement.hits t).any (fun h => Text.occursIn "react".toList h.text) = false
  /-- Known hooks are called. -/
  known : hooksCalled t ≠ []

theorem addMissingImports_of_lacks {t : Text} (h : LacksImport t) : addMissingImports t = hookImport (hooksCalled t) ++ t := by
  unfold addMissingImports
  rw [h.calls, h.imports, if_neg (by decide), if_neg (by decide)]
  exact if_neg (by simpa using h.known)

theorem addMissingImports_of_not_lacks {t : Text} (h : ¬ LacksImport t) : addMissingImports t = t := by
  unfold addMissingImports
  split
  · rfl
  · rename_i hcalls
    split
    · rfl
    · rename_i himports
      dsimp only
      split
      · rfl
      · rename_i hknown
        exact absurd ⟨by simpa using hcalls, Bool.eq_false_iff.2 himports, by simpa using hknown⟩ h

/-- The hooks that are called are imported. -/
theorem transform_imports {t : Text} (h : LacksImport t) : ∃ t', transform t = hookImport (hooksCalled t) ++ t' := by
  have hhooks : ∀ hook ∈ hooksCalled t, hook ∈ knownHooks := fun hook hmem => (mem_hooksCalled.1 hmem).1
  have himport := addMissingImports_of_lacks h
  obtain ⟨t', ht'⟩ := addMissingKeys_front hhooks t
  obtain ⟨t'', ht''⟩ := addMissingAlt_front hhooks t'
  exact ⟨t'', by rw [transform, himport, ht', ht'']⟩

/-- Whether each known hook that a text calls is named in an import that mentions the library. What is named stands in the
first line of the match, which may run on to a later quotation mark. -/
def importsHooks (t : Text) : Bool :=
  (hooksCalled t).all fun hook => (importStatement.hits t).any fun h =>
    let line := h.text.takeWhile inLine
    Text.occursIn "react".toList line && Text.occursIn hook.toList line

/-- A statement behind a front without imports imports all hooks, if it names those that are called. -/
theorem importsHooks_hookImport {front t : Text} {hooks : List String} (hhooks : ∀ hook ∈ hooks, hook ∈ knownHooks)
    (hfront : importStatement.Skips [] front (hookImport hooks ++ t))
    (hcalled : ∀ hook ∈ hooksCalled (front ++ (hookImport hooks ++ t)), hook ∈ hooks) :
    importsHooks (front ++ (hookImport hooks ++ t)) = true := by
  obtain ⟨h, hh, hpre⟩ := exists_hit_hookImport hhooks front.reverse t
  have hline : importHead hooks ++ '\'' :: "react".toList <+: h.text.takeWhile inLine := by
    have hno : '\n' ∉ importHead hooks := notMem_importHead hhooks (by decide) (by decide)
    have hall : ∀ c ∈ importHead hooks ++ '\'' :: "react".toList, inLine c = true := by
      refine List.forall_mem_append.2 ⟨fun c hc => bne_iff_ne.2 fun heq => hno (heq ▸ hc), by decide⟩
    obtain ⟨rest, hrest⟩ := hpre
    rw [← hrest, List.takeWhile_append_of_pos hall]
    exact List.prefix_append _ _
  have hreact : "react".toList <:+: importHead hooks ++ '\'' :: "react".toList := ⟨importHead hooks ++ ['\''], [], by simp⟩
  refine List.all_eq_true.2 fun hook hmem => List.any_eq_true.2 ⟨h, mem_hits_append hfront hh fun hnil => ?_, ?_⟩
  · rw [hnil] at hpre
    exact absurd (hreact.trans hpre.isInfix) (by decide)
  · have hname := (infix_importHead (hcalled hook hmem)).trans (List.prefix_append _ ('\'' :: "react".toList)).isInfix
    rw [Bool.and_eq_true, Text.occursIn_iff, Text.occursIn_iff]
    exact ⟨hreact.trans hline.isInfix, hname.trans hline.isInfix⟩

end LayeredFix.Pass.Component
