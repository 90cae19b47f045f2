import LayeredFix.Proofs.Component.Hooks
import LayeredFix.Proofs.Guard.FixedPoint

/-!
# Calls of hooks and host guards

The tests for the globals of a host call no hook. The flag that defers rendering calls two, so the pass that inserts host
guards makes no call of a hook unless it puts in the flag (`infix_transform`). What it inserts comes behind an import of
hooks, but for the mark of client code (`transform_front`).
-/

namespace LayeredFix.Pass.Guard

open Pattern Component

variable {w : Text}

/-! ### Calls -/

/-- A test is set apart from what is around it, and calls nothing. -/
theorem HostRule.detached {r : HostRule} (hr : r ∈ hostRules) {name : Text} (hw : name ++ ['('] ∈ hookWords)
    (matched : Text) : Detached name '(' matched r.guarded := by
  have hd {d : Char} (hd : d ∉ hookChars) : d ∉ name ++ ['('] := notMem_hookWord hw hd
  obtain ⟨body, heq, hno, -⟩ := guarded_shape hr
  exact Or.inr ⟨_, _, _, _, heq, by decide, hd (by decide), hd (by decide),
    fun hin => absurd hin (not_infix_of_bracket_notMem hw hno)⟩

theorem infix_addEnvironmentGuards (hw : w ∈ hookWords) {t : Text} (h : w <:+: addEnvironmentGuards t) : w <:+: t := by
  obtain ⟨name, rfl, -⟩ := hookWord_eq hw
  exact infix_of_infix_addEnvironmentGuards (fun _ hr => HostRule.detached hr hw) h

/-- What is put in between two blanks holds a call, or what is around it does. -/
theorem infix_of_between (hw : w ∈ hookWords) {a x mid z : Text} (hx : '(' ∉ x)
    (h : w <:+: a ++ (x ++ ' ' :: (mid ++ ' ' :: z))) : w <:+: a ∨ w <:+: mid ∨ w <:+: z := by
  rw [← List.append_assoc] at h
  rcases infix_of_apart hw (by decide) h with h | h
  · obtain ⟨name, rfl, -⟩ := hookWord_eq hw
    exact Or.inl (Text.infix_of_last_notMem h hx)
  · exact Or.inr (infix_of_apart hw (by decide) h)

/-- The calls that the flag makes. -/
def flagWords : List Text := ["useState(", "useEffect("].map String.toList

/-- The test of the flag makes no call. -/
theorem infix_mountedRender (hw : w ∈ hookWords) {a blanks z : Text} (h : w <:+: a ++ (mountedRender ++ z)) :
    w <:+: a ++ (("return".toList ++ blanks ++ ['(']) ++ z) := by
  obtain ⟨mid, hmid⟩ : ∃ mid, mid = (mountedRender.drop 3).dropLast.dropLast := ⟨_, rfl⟩
  have hrender : mountedRender ++ z = "if".toList ++ ' ' :: (mid ++ ' ' :: ([] ++ '(' :: z)) := by
    have heq : mountedRender = "if".toList ++ ' ' :: (mid ++ ' ' :: ['(']) := by
      rw [hmid]
      decide
    rw [heq]
    simp
  have hno : ∀ w ∈ hookWords, Text.occursIn w (mountedRender.drop 3).dropLast.dropLast = false ∧
      Text.occursIn w ([] ++ ['(']) = false := by decide
  rw [hrender] at h
  rcases infix_of_between hw (by decide) h with h | h | h
  · exact h.trans (List.prefix_append _ _).isInfix
  · rw [hmid, ← Text.occursIn_iff, (hno w hw).1] at h
    cases h
  · refine (infix_of_bracket hw h ?_).trans ⟨a ++ ("return".toList ++ blanks ++ ['(']), [], by simp⟩
    rw [← Text.occursIn_iff, (hno w hw).2]
    decide

/-- The flag makes its calls. -/
theorem infix_mountedState (hw : w ∈ hookWords) {a z : Text} (h : w <:+: a ++ (mountedState ++ z)) :
    w <:+: a ∨ w <:+: z ∨ w ∈ flagWords := by
  obtain ⟨mid, hmid⟩ : ∃ mid, mid = (mountedState.drop 6).dropLast := ⟨_, rfl⟩
  have hstate : mountedState ++ z = "const".toList ++ ' ' :: (mid ++ ' ' :: z) := by
    have heq : mountedState = "const".toList ++ ' ' :: (mid ++ [' ']) := by
      rw [hmid]
      decide
    rw [heq]
    simp
  have hall : ∀ w ∈ hookWords, Text.occursIn w (mountedState.drop 6).dropLast = true → w ∈ flagWords := by
    decide
  rw [hstate] at h
  rcases infix_of_between hw (by decide) h with h | h | h
  · exact Or.inl h
  · exact Or.inr (Or.inr (hall w hw ((Text.occursIn_iff _ _).2 (hmid ▸ h))))
  · exact Or.inr (Or.inl h)

theorem infix_addMountedState (hw : w ∈ hookWords) {t : Text} (h : w <:+: addMountedState t) :
    w <:+: t ∨ addMountedState t ≠ t ∧ w ∈ flagWords := by
  by_cases hsame : addMountedState t = t
  · exact Or.inl (hsame ▸ h)
  · obtain ⟨a, z, rfl, heq⟩ := addMountedState_of_not_idle fun hidle => hsame (addMountedState_of_idle hidle)
    have hflag : w <:+: a ++ (mountedState ++ ("const [".toList ++ z)) := by
      rw [heq, List.append_assoc] at h
      rcases replaceFirst_mountedRender (a ++ (mountedState ++ ("const [".toList ++ z))) with
        hr | ⟨a', blanks, z', ht, -, hr⟩
      · rwa [hr] at h
      · rw [hr] at h
        rw [ht]
        exact infix_mountedRender hw h
    rcases infix_mountedState hw hflag with hin | hin | hin
    · exact Or.inl (hin.trans (List.prefix_append _ _).isInfix)
    · exact Or.inl (hin.trans (List.suffix_append _ _).isInfix)
    · exact Or.inr ⟨hsame, hin⟩

theorem infix_addClientDirective (hw : w ∈ hookWords) {t : Text} (h : w <:+: addClientDirective t) : w <:+: t := by
  have hall : ∀ w ∈ hookWords, '\n' ∉ w ∧ Text.occursIn w (clientDirective ++ "\n").toList = false := by decide
  rcases addClientDirective_eq t with heq | heq
  · rwa [heq] at h
  · rwa [heq, ← Text.occursIn_iff, occursIn_markClient (hall w hw).1 (hall w hw).2, Text.occursIn_iff] at h

/-- **The pass makes no call of a hook**, but for those of the flag. -/
theorem infix_transform (hw : w ∈ hookWords) {t : Text} (h : w <:+: transform t) :
    w <:+: t ∨ addMountedState (addEnvironmentGuards t) ≠ addEnvironmentGuards t ∧ w ∈ flagWords :=
  (infix_addMountedState hw (infix_addClientDirective hw h)).imp_left (infix_addEnvironmentGuards hw)

/-! ### The import in front -/

section
variable {front : Text} {last : Char}

/-- References to host globals skip a front without dots. -/
theorem HostRule.skips {r : HostRule} (hr : r ∈ hostRules) (hdot : '.' ∉ front) (hlast : isPath last = false) (t : Text) :
    r.pattern.Skips [] (front ++ [last]) t := by
  intro u v hfront hne
  obtain ⟨v, c, rfl⟩ := (List.eq_nil_or_concat v).resolve_left hne
  rw [List.concat_eq_append, ← List.append_assoc] at hfront
  obtain ⟨rfl, hc⟩ := List.append_inj' hfront rfl
  rw [HostRule.hit?_eq_none_iff hr, ← List.singleton_inj.1 hc, List.concat_eq_append, List.append_assoc,
    List.singleton_append]
  exact fun _ x hx => not_refers_of_dotless hr hx (fun hmem => hdot (List.mem_append_right _ hmem)) hlast

theorem addEnvironmentGuards_front (hdot : '.' ∉ front) (hlast : isPath last = false) :
    Text.KeepsFront (front ++ [last]) addEnvironmentGuards :=
  Text.keepsFront_foldl fun _ hr => keepsFront_replace (HostRule.skips hr hdot hlast)

/-- The flag and its test come behind a front that does not hold their words. -/
theorem addMountedState_front (hn : 'n' ∉ front) (hconst : last ∉ "const [".toList) (hreturn : last ∉ "return".toList) :
    Text.KeepsFront (front ++ [last]) addMountedState := by
  have hdecl (t : Text) : stateDeclaration.Skips [] (front ++ [last]) t :=
    skips_of_word (fun _ _ _ hh => prefix_of_hit?_seq_text hh) (n := 'n') (by decide) hconst hn [] t
  have hrender (t : Text) : renderReturn.Skips [] (front ++ [last]) t :=
    skips_of_word (fun _ _ _ hh => prefix_of_hit?_seq_text hh) (n := 'n') (by decide) hreturn hn [] t
  intro t
  unfold addMountedState
  split
  · exact ⟨t, rfl⟩
  · split
    · exact ⟨t, rfl⟩
    · rename_i x hx
      obtain ⟨u, hu⟩ := before_of_search (hdecl t) hx
      rw [hu]
      simp only [List.append_assoc (front ++ [last])]
      exact keepsFront_replaceFirst hrender mountedRender _

/-- A front without dots and without the words of the flag stays in front, but for the mark of client code. -/
theorem transform_front (hdot : '.' ∉ front) (hn : 'n' ∉ front) (t : Text) :
    ∃ t', transform (front ++ ['\n'] ++ t) = front ++ ['\n'] ++ t' ∨
      transform (front ++ ['\n'] ++ t) = markClient (front ++ ['\n'] ++ t') := by
  have hguards : Text.KeepsFront (front ++ ['\n']) addEnvironmentGuards := addEnvironmentGuards_front hdot (by decide)
  obtain ⟨t', ht'⟩ := (hguards.comp (addMountedState_front hn (by decide) (by decide))) t
  refine ⟨t', ?_⟩
  unfold transform
  rw [← ht']
  exact addClientDirective_eq _

end

end LayeredFix.Pass.Guard
