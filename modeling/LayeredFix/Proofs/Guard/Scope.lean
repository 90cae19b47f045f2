import LayeredFix.Proofs.Guard.FixedPoint
import LayeredFix.Proofs.Text.Reading

/-!
# Where the test of the flag stands

The flag is declared in front of the first declaration of state, and tested where a text first returns something to be
rendered. Two searches find these places, and nothing ties one to the other. The test comes first just if something is
returned in front of the first declaration of state (`inScope_addMountedState_iff`), as in a helper above the component;
otherwise the second search passes over all that stands in front of the flag and over the flag itself
(`skips_flagged`).
-/

namespace LayeredFix.Pass.Guard

open Pattern

/-- The declaration of the flag. -/
def flagDeclaration : Text := "const [mounted, setMounted]".toList

/-- The test of the flag. -/
def flagTest : Text := "if (!mounted)".toList

/-- Wherever the flag is tested, it has been declared before. -/
def InScope (t : Text) : Prop := ∀ a b, t = a ++ (flagTest ++ b) → flagDeclaration <:+: a

theorem mountedState_eq : mountedState = flagDeclaration ++ mountedState.drop flagDeclaration.length := by decide +kernel

theorem mountedRender_eq : mountedRender = flagTest ++ mountedRender.drop flagTest.length := by decide +kernel

/-! ### Where something is returned -/

/-- Every beginning of a return is matched, whatever follows. -/
theorem exists_hit?_renderReturn {blanks : Text} (hblanks : ∀ c ∈ blanks, Text.isBlank c = true) (behind rest : Text) :
    ∃ h, renderReturn.hit? behind ("return".toList ++ blanks ++ ['('] ++ rest) = some h := by
  have htakes : renderReturn.Takes behind [] ("return".toList ++ blanks ++ ['(']) rest [] := by
    refine ⟨_, _, _, ?_, ⟨rfl, rfl⟩, blanks, ['('], _, rfl, ⟨hblanks, rfl⟩, rfl, rfl⟩
    simp
  exact exists_hit? htakes

/-- A return that begins in a text is found no later in a longer text. -/
theorem search_renderReturn_of_found {u : Text} {y : Found} (hy : renderReturn.search u = some y) (v : Text) :
    ∃ z, renderReturn.search (u ++ v) = some z ∧ z.before <+: u := by
  obtain ⟨hu, hhit⟩ := search_spec hy
  obtain ⟨blanks, htext, hblanks⟩ := text_renderReturn hhit
  rw [htext] at hu
  obtain ⟨h, hh⟩ := exists_hit?_renderReturn hblanks y.before.reverse (y.after ++ v)
  have huv : u ++ v = y.before ++ ("return".toList ++ blanks ++ ['('] ++ (y.after ++ v)) := by
    rw [hu]
    simp only [List.append_assoc]
  rcases hz : renderReturn.search (u ++ v) with _ | z
  · rw [search_eq_none_iff.1 hz _ _ huv] at hh
    cases hh
  · refine ⟨z, rfl, ?_⟩
    obtain ⟨hsplit, -⟩ := search_spec hz
    rcases List.append_eq_append_iff.1 (huv.symm.trans hsplit) with ⟨k, hk, hrest⟩ | ⟨k, hk, -⟩
    · -- A later match would pass over the return.
      rcases k with _ | ⟨c, k⟩
      · rw [hk, List.append_nil]
        exact ⟨_, hu.symm⟩
      · have hnone := skips_of_search hz y.before (c :: k) hk (List.cons_ne_nil c k)
        rw [List.append_nil, ← hrest, hh] at hnone
        cases hnone
    · refine List.IsPrefix.trans ⟨k, hk.symm⟩ ?_
      exact ⟨_, hu.symm⟩

/-- If nothing is returned in a text, a return is found behind it and behind the flag. -/
theorem skips_flagged {u : Text} (hu : renderReturn.Absent u) (rest : Text) :
    renderReturn.Skips [] (u ++ mountedState) rest := by
  intro a b hab hne
  refine Option.eq_none_iff_forall_ne_some.2 fun h hh => ?_
  obtain ⟨blanks, htext, hblanks⟩ := text_renderReturn hh
  obtain ⟨after, hafter⟩ := text_hit? hh
  rw [htext] at hafter
  rcases List.append_eq_append_iff.1 hab with ⟨k, rfl, hk⟩ | ⟨k, rfl, rfl⟩
  · -- The flag does not hold the word, and ends in a blank.
    have hlast : mountedState = mountedState.dropLast ++ [' '] := by decide +kernel
    obtain ⟨b, c, rfl⟩ := (List.eq_nil_or_concat b).resolve_left hne
    rw [List.concat_eq_append] at hafter hk
    rw [hlast, ← List.append_assoc] at hk
    obtain ⟨hk, hc⟩ := List.append_inj' hk rfl
    rw [← List.singleton_inj.1 hc, List.append_assoc, List.singleton_append] at hafter
    have hword : "return".toList <+: b ++ ' ' :: rest := ⟨blanks ++ ['('] ++ after, by rw [hafter]; simp⟩
    have hin : "return".toList <:+: mountedState.dropLast :=
      (Text.prefix_of_notMem hword (by decide)).isInfix.trans ⟨k, [], by rw [List.append_nil]; exact hk.symm⟩
    exact absurd ((Text.occursIn_iff _ _).2 hin) (by decide +kernel)
  · -- A return that begins in front of the flag ends in front of it, as it does not hold its first letter.
    have hhead : mountedState = 'c' :: mountedState.tail := rfl
    have hnotin : 'c' ∉ "return".toList ++ blanks ++ ['('] := by
      intro hmem
      rcases List.mem_append.1 hmem with hmem | hmem
      · rcases List.mem_append.1 hmem with hmem | hmem
        · exact absurd hmem (by decide)
        · exact absurd (hblanks 'c' hmem) (by decide)
      · exact absurd hmem (by decide)
    rw [hhead, List.append_assoc, List.cons_append] at hafter
    obtain ⟨after', hk⟩ := Text.prefix_of_notMem ⟨after, hafter.symm⟩ hnotin
    obtain ⟨h', hh'⟩ := exists_hit?_renderReturn hblanks a.reverse after'
    rw [hk, hu a k rfl] at hh'
    cases hh'

/-! ### Where the flag is tested -/

section
variable {u r : Text} (hu : ¬ "mounted".toList <:+: u)
include hu

/-- A test that is put in before anything of the flag is out of scope. -/
theorem not_inScope_of_early (r : Text) : ¬ InScope (u ++ (mountedRender ++ r)) := by
  intro h
  rw [mountedRender_eq, List.append_assoc] at h
  have hdeclared := h u _ rfl
  have hword : "mounted".toList <:+: flagDeclaration := (Text.occursIn_iff _ _).1 (by decide)
  exact hu (hword.trans hdeclared)

/-- If the flag is put in before anything else of it, every test is in scope. -/
theorem inScope_of_flagged : InScope (u ++ (mountedState ++ r)) := by
  intro a b heq
  have htest : flagTest = "if (".toList ++ '!' :: "mounted)".toList := by decide
  rw [htest, List.append_assoc, ← List.append_assoc a, List.cons_append] at heq
  -- The exclamation mark of the test stands behind the declaration, as there is none in it.
  have hbehind : ∃ k, a ++ "if (".toList = u ++ k ∧ mountedState ++ r = k ++ '!' :: ("mounted)".toList ++ b) := by
    rcases List.append_eq_append_iff.1 heq with ⟨k, hk, hrest⟩ | ⟨k, hk, hrest⟩
    · exact ⟨k, hk, hrest⟩
    · rcases k with _ | ⟨d, k⟩
      · exact ⟨[], by rw [hk, List.append_nil, List.append_nil], hrest.symm⟩
      · obtain ⟨rfl, htail⟩ := List.cons.inj hrest
        have hstate : mountedState ++ r = 'c' :: (mountedState.tail ++ r) := rfl
        have hword : "mounted".toList <+: k ++ 'c' :: (mountedState.tail ++ r) := by
          rw [← hstate]
          exact ⟨')' :: b, htail⟩
        refine absurd ((Text.prefix_of_notMem hword (by decide)).isInfix.trans ?_) hu
        exact ⟨a ++ "if (".toList ++ ['!'], [], by rw [hk]; simp⟩
  obtain ⟨k, hk, hrest⟩ := hbehind
  obtain ⟨k', rfl, -⟩ := Text.cut_after hrest (by decide)
  -- So does the beginning of the test, as the declaration ends in a bracket.
  have hlast : flagDeclaration = flagDeclaration.dropLast ++ [']'] := by decide
  rw [hlast]
  refine Text.infix_of_last_notMem (v := "if (".toList) ?_ (by decide)
  rw [← hlast, hk, mountedState_eq]
  exact ⟨u, mountedState.drop flagDeclaration.length ++ k', by simp only [List.append_assoc]⟩

end

/-- **The flag is tested in its scope just if nothing is returned in front of the first declaration of state**, in every
text without a flag that gets one. -/
theorem inScope_addMountedState_iff {t : Text} (hmounted : Text.occursIn "mounted".toList t = false)
    (hchanged : addMountedState t ≠ t) :
    InScope (addMountedState t) ↔ ∃ x, stateDeclaration.search t = some x ∧ renderReturn.Absent x.before := by
  obtain ⟨x, hx, heq⟩ : ∃ x, stateDeclaration.search t = some x ∧ addMountedState t =
      renderReturn.replaceFirst mountedRender (x.before ++ mountedState ++ x.hit.text ++ x.after) := by
    unfold addMountedState at hchanged ⊢
    split at hchanged
    · exact absurd rfl hchanged
    · rename_i hcond
      rcases hx : stateDeclaration.search t with _ | x
      · rw [hx] at hchanged
        exact absurd rfl hchanged
      · exact ⟨x, rfl, by rw [if_neg hcond]⟩
  have ht : t = x.before ++ (x.hit.text ++ x.after) := (search_spec hx).1
  have hfree : ¬ "mounted".toList <:+: x.before := by
    refine fun h => Text.occursIn_eq_false_iff.1 hmounted (h.trans ?_)
    rw [ht]
    exact (List.prefix_append _ _).isInfix
  rw [heq]
  constructor
  · intro hscope
    refine ⟨x, hx, search_eq_none_iff.1 (Option.eq_none_iff_forall_ne_some.2 fun y hy => ?_)⟩
    obtain ⟨z, hz, hbefore⟩ := search_renderReturn_of_found hy (mountedState ++ (x.hit.text ++ x.after))
    have hout : renderReturn.replaceFirst mountedRender (x.before ++ mountedState ++ x.hit.text ++ x.after) =
        z.before ++ (mountedRender ++ z.after) := by
      unfold replaceFirst
      simp only [List.append_assoc, hz]
    rw [hout] at hscope
    exact not_inScope_of_early (fun h => hfree (h.trans hbefore.isInfix)) z.after hscope
  · rintro ⟨x', hx', habsent⟩
    obtain rfl : x = x' := Option.some.inj (hx.symm.trans hx')
    obtain ⟨r, hr⟩ := keepsFront_replaceFirst (skips_flagged habsent) mountedRender (x.hit.text ++ x.after)
    rw [List.append_assoc (x.before ++ mountedState), hr, List.append_assoc]
    exact inScope_of_flagged hfree

/-- A component that reads the host for its state. -/
def windowState : Text := "function A() \x7b\n  const [v, setV] = useState(window.name);\n  return (v);\n\x7d".toList

/-- In a component that stands alone the test is in scope. -/
theorem inScope_windowState :
    Text.occursIn "mounted".toList windowState = false ∧ addMountedState windowState ≠ windowState ∧
      InScope (addMountedState windowState) := by
  have hall : Text.occursIn "mounted".toList windowState = false ∧ addMountedState windowState ≠ windowState ∧
      (stateDeclaration.search windowState).any (fun x => (renderReturn.search x.before).isNone) = true := by
    unfold windowState
    rewrite [String.toList_ofList]
    decide +kernel
  obtain ⟨hmounted, hchanged, hsearch⟩ := hall
  refine ⟨hmounted, hchanged, (inScope_addMountedState_iff hmounted hchanged).2 ?_⟩
  rcases hx : stateDeclaration.search windowState with _ | x
  · rw [hx] at hsearch
    cases hsearch
  · rw [hx, Option.any_some, Option.isNone_iff_eq_none] at hsearch
    exact ⟨x, rfl, search_eq_none_iff.1 hsearch⟩

/-- What stands in front of the return of a helper. -/
def helperHead : Text := "function h() \x7b\n  ".toList

/-- The component below a helper that returns something in brackets. -/
def helperAbove : Text := helperHead ++ ("return (1);\n\x7d\n".toList ++ windowState)

/-- There the test of the flag is put into the helper. -/
theorem not_inScope_helperAbove :
    Text.occursIn "mounted".toList helperAbove = false ∧ addMountedState helperAbove ≠ helperAbove ∧
      ¬ InScope (addMountedState helperAbove) := by
  have hall : Text.occursIn "mounted".toList helperHead = false ∧ Text.occursIn "mounted".toList helperAbove = false ∧
      addMountedState helperAbove ≠ helperAbove ∧ helperHead ++ mountedRender <+: addMountedState helperAbove := by
    unfold helperAbove helperHead windowState
    rewrite [String.toList_ofList, String.toList_ofList, String.toList_ofList]
    decide +kernel
  obtain ⟨hhead, hmounted, hchanged, r, hr⟩ := hall
  refine ⟨hmounted, hchanged, ?_⟩
  rw [← hr, List.append_assoc]
  exact not_inScope_of_early (Text.occursIn_eq_false_iff.1 hhead) r

end LayeredFix.Pass.Guard
