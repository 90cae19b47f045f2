import Mathlib.Data.List.Infix
import LayeredFix.Proofs.Hardening.Exports

/-!
# Hardening a text twice

Each repair looks for signs before it acts, and the repairs behind it must not make or break its signs. So for each repair
there is a property of the texts that it leaves alone (`Sheltered`, `Flagged`, `Handled`, `AllEnded`); a text has it once the
repair has been made, and the repairs behind it preserve it.

Only the last repair takes signs out of a text again: a statement may hold one in the name that it exports. This, and a text that
falls below the size limit by what is taken out of it, is what `Settles` excludes, and `transform_adds_fallback_later` shows what
comes of it.
-/

namespace LayeredFix.Pass.Hardening

open Pattern
open Relation (ReflTransGen)

variable {t t' w : Text}

/-! ### The fallback -/

/-- Nothing is at risk, errors are handled, or no function is the default export. -/
def Sheltered (t : Text) : Prop :=
  Text.anyOccursIn riskMarkers t = false ∨ Text.occursIn "ErrorBoundary".toList t = true ∨ tryBlock.occursIn t = true ∨
    defaultFunction.occursIn t = false

theorem addFallbackRender_of_sheltered (h : Sheltered t) : addFallbackRender t = t := by
  unfold addFallbackRender
  rcases h with h | h | h | h
  · rw [h]
    rfl
  · rw [h]
    split <;> rfl
  · rw [h, Bool.or_true]
    split <;> rfl
  · have hnone : defaultFunction.search t = none := by
      unfold Pattern.occursIn at h
      exact Option.not_isSome_iff_eq_none.1 (by rw [h]; decide)
    rw [hnone]
    split
    · rfl
    · split <;> rfl

theorem sheltered_addFallbackRender (t : Text) : Sheltered (addFallbackRender t) := by
  unfold addFallbackRender
  split
  · rename_i h
    exact Or.inl (by simpa using h)
  · split
    · rename_i h
      rw [Bool.or_eq_true] at h
      exact Or.inr (h.imp_right Or.inl)
    · split
      · rename_i h
        exact Or.inr (Or.inr (Or.inr (by rw [Pattern.occursIn, h]; rfl)))
      · -- The name of the component that is put in says that errors are handled.
        rename_i f _
        refine Or.inr (Or.inl ((Text.occursIn_iff ..).2 ?_))
        refine List.IsInfix.trans ⟨"With".toList, [';'], ?_⟩ (List.suffix_append _ _).isInfix
        decide

/-! ### The loading flag -/

/-- Nothing waits, nothing has a state, or there is a loading flag. -/
def Flagged (t : Text) : Prop :=
  Text.occursIn "useState".toList t = false ∨ Text.anyOccursIn waitMarkers t = false ∨
    Text.occursIn "loading".toList t = true ∨ Text.occursIn "isLoading".toList t = true ∨ ¬ Declares t

theorem addLoadingState_of_long (h : smallComponentLimit ≤ t.length) : addLoadingState t = t := by
  rw [addLoadingState, if_pos]
  rw [Bool.or_eq_true]
  exact Or.inl (decide_eq_true h)

theorem search_stateDeclaration (h : ¬ Declares t) : Guard.stateDeclaration.search t = none := by
  rw [← stateDeclaration_occursIn_iff] at h
  exact Option.not_isSome_iff_eq_none.1 h

theorem addLoadingState_of_flagged (h : Flagged t) : addLoadingState t = t := by
  unfold addLoadingState
  rcases h with h | h | h | h | h
  · rw [h, Bool.not_false, Bool.or_true]
    rfl
  · rw [h]
    split <;> rfl
  · rw [h]
    split
    · rfl
    · split <;> rfl
  · rw [h, Bool.or_true]
    split
    · rfl
    · split <;> rfl
  · rw [search_stateDeclaration h]
    split
    · rfl
    · split
      · rfl
      · split <;> rfl

/-- What stands between the first bracket of the flag and the bracket behind it. -/
def flag : Text := "isLoading, setIsLoading] = useState(false);\n  const ".toList

theorem loadingState_append : loadingState ++ "const [".toList = "const ".toList ++ '[' :: (flag ++ ['[']) := by decide

/-- **What the repair does**: nothing to a large text, and to a small one it puts in a flag where there should be one. -/
theorem addLoadingState_cases (t : Text) : (addLoadingState t = t ∧ (smallComponentLimit ≤ t.length ∨ Flagged t)) ∨
    ∃ u r, t = u ++ '[' :: r ∧ addLoadingState t = u ++ '[' :: (flag ++ '[' :: r) := by
  unfold addLoadingState
  split
  · rename_i h
    rw [Bool.or_eq_true, decide_eq_true_eq, Bool.not_eq_true'] at h
    exact Or.inl ⟨rfl, h.imp_right Or.inl⟩
  · split
    · rename_i h
      exact Or.inl ⟨rfl, Or.inr (Or.inr (Or.inl (by simpa using h)))⟩
    · split
      · rename_i h
        rw [Bool.or_eq_true] at h
        exact Or.inl ⟨rfl, Or.inr (Or.inr (Or.inr (h.imp_right Or.inl)))⟩
      · split
        · rename_i h
          refine Or.inl ⟨rfl, Or.inr (Or.inr (Or.inr (Or.inr (Or.inr fun hd => ?_))))⟩
          rw [← stateDeclaration_occursIn_iff, Pattern.occursIn, h] at hd
          cases hd
        · rename_i f hf
          obtain ⟨ht, hh⟩ := search_spec hf
          obtain ⟨r, hr⟩ := prefix_of_hit?_seq_text hh
          refine Or.inr ⟨f.before ++ "const ".toList, r ++ f.after, ?_, ?_⟩
          · conv => lhs; rw [ht, ← hr]
            simp
          · have hflag := congrArg (fun v => f.before ++ (v ++ (r ++ f.after))) loadingState_append
            simp only [List.append_assoc, List.cons_append, List.nil_append] at hflag
            rw [← List.append_assoc _ r, hr] at hflag
            simpa only [List.append_assoc] using hflag

theorem infix_flag_iff {u r : Text} (hw : '[' ∉ w) : w <:+: u ++ '[' :: (flag ++ '[' :: r) ↔ w <:+: u ++ '[' :: r ∨ w <:+: flag := by
  rw [Text.infix_append_cons_iff hw, Text.infix_append_cons_iff hw, Text.infix_append_cons_iff hw, or_comm (a := w <:+: flag),
    or_assoc]

/-- The flag brings in no risk and no default export, and takes no error handling out. -/
theorem Sheltered.addLoadingState (h : Sheltered t) : Sheltered (addLoadingState t) := by
  rcases addLoadingState_cases t with ⟨heq, -⟩ | ⟨u, r, rfl, heq⟩
  · rwa [heq]
  · rw [heq]
    rcases h with h | h | h | h
    · refine Or.inl (Text.anyOccursIn_eq_false_iff.2 fun w hw hin => Text.anyOccursIn_eq_false_iff.1 h w hw ?_)
      have hall : ∀ w ∈ riskMarkers, '[' ∉ w ∧ ¬ w <:+: flag := by decide
      obtain ⟨hno, hflag⟩ := hall w hw
      exact ((infix_flag_iff hno).1 hin).resolve_right hflag
    · rw [Text.occursIn_iff] at h
      exact Or.inr (Or.inl ((Text.occursIn_iff ..).2 ((infix_flag_iff (by decide)).2 (Or.inl h))))
    · rw [tryBlock_occursIn_iff, shows_try_append_cons_iff (by decide)] at h
      refine Or.inr (Or.inr (Or.inl ?_))
      rw [tryBlock_occursIn_iff, shows_try_append_cons_iff (by decide), shows_try_append_cons_iff (by decide)]
      exact h.imp_right Or.inr
    · refine Or.inr (Or.inr (Or.inr ?_))
      rw [← Bool.not_eq_true, defaultFunction_occursIn_iff] at h ⊢
      rintro ⟨c, hc, hin⟩
      have hno : '[' ∉ "export default function ".toList ++ [c] := by
        rw [List.mem_append, List.mem_singleton, not_or]
        refine ⟨by decide, ?_⟩
        rintro rfl
        exact absurd hc (by decide)
      refine h ⟨c, hc, ((infix_flag_iff hno).1 hin).resolve_right fun hflag => ?_⟩
      have hshort : ¬ "export default function ".toList <:+: flag := by decide
      exact hshort ((List.prefix_append _ _).isInfix.trans hflag)

theorem flagged_addLoadingState (h : t.length < smallComponentLimit) : Flagged (addLoadingState t) := by
  rcases addLoadingState_cases t with ⟨heq, hlong | hflagged⟩ | ⟨u, r, rfl, heq⟩
  · omega
  · rwa [heq]
  · rw [heq]
    refine Or.inr (Or.inr (Or.inr (Or.inl ((Text.occursIn_iff ..).2 ((infix_flag_iff (by decide)).2 (Or.inr ?_))))))
    decide

/-! ### Error handling -/

theorem addErrorHandling_of_handled (h : Handled t) : addErrorHandling t = t := by
  rcases addErrorHandling_cases t with ⟨-, heq⟩ | ⟨hnot, -⟩
  · exact heq
  · exact absurd h hnot

theorem handled_addErrorHandling (t : Text) : Handled (addErrorHandling t) := by
  rcases addErrorHandling_cases t with ⟨h, heq⟩ | ⟨-, u, k, b, z, i, -, -, heq⟩
  · rwa [heq]
  · rw [heq]
    exact Or.inr (Or.inr (Or.inl (tryBlock_wrapped ..)))

theorem Sheltered.addErrorHandling (h : Sheltered t) : Sheltered (addErrorHandling t) := by
  rcases addErrorHandling_cases t with ⟨-, heq⟩ | ⟨-, u, k, b, z, i, -, -, heq⟩
  · rwa [heq]
  · rw [heq]
    exact Or.inr (Or.inr (Or.inl (tryBlock_wrapped ..)))

theorem Flagged.addErrorHandling (h : Flagged t) : Flagged (addErrorHandling t) := by
  rcases addErrorHandling_cases t with ⟨-, heq⟩ | ⟨-, u, k, b, z, i, hw, hi, heq⟩
  · rwa [heq]
  · have hall : ∀ w ∈ "useState".toList :: "loading".toList :: "isLoading".toList :: waitMarkers,
        Compact w ∧ ∀ l ∈ frame, ¬ w <:+: l := by decide
    have hiff {w : Text} (hmem : w ∈ "useState".toList :: "loading".toList :: "isLoading".toList :: waitMarkers) :
        w <:+: Hardening.addErrorHandling t ↔ w <:+: t := by
      rw [heq, infix_wrapped_iff (hall w hmem).1 (hall w hmem).2 hi, ← hw.text]
    rcases h with h | h | h | h | h
    · rw [Text.occursIn_eq_false_iff, ← hiff (by simp), ← Text.occursIn_eq_false_iff] at h
      exact Or.inl h
    · refine Or.inr (Or.inl (Text.anyOccursIn_eq_false_iff.2 fun w hmem hin => Text.anyOccursIn_eq_false_iff.1 h w hmem ?_))
      exact (hiff (by simp [hmem])).1 hin
    · rw [Text.occursIn_iff, ← hiff (by simp), ← Text.occursIn_iff] at h
      exact Or.inr (Or.inr (Or.inl h))
    · rw [Text.occursIn_iff, ← hiff (by simp), ← Text.occursIn_iff] at h
      exact Or.inr (Or.inr (Or.inr (Or.inl h)))
    · refine Or.inr (Or.inr (Or.inr (Or.inr fun hd => h ?_)))
      rw [heq] at hd
      rw [hw.text]
      exact hd.of_wrapped hi

/-! ### Members of interfaces -/

theorem Ends.sheltered (he : Ends t t') (h : Sheltered t) : Sheltered t' := by
  rcases h with h | h | h | h
  · refine Or.inl (Text.anyOccursIn_eq_false_iff.2 fun w hw hin => Text.anyOccursIn_eq_false_iff.1 h w hw ?_)
    have hall : ∀ w ∈ riskMarkers, Compact w := by decide
    exact (he.infix_iff (hall w hw)).2 hin
  · rw [Text.occursIn_iff, he.infix_iff (by decide), ← Text.occursIn_iff] at h
    exact Or.inr (Or.inl h)
  · exact Or.inr (Or.inr (Or.inl (he.tryBlock h)))
  · refine Or.inr (Or.inr (Or.inr ?_))
    rw [← Bool.not_eq_true] at h ⊢
    exact fun hnew => h (he.defaultFunction hnew)

theorem Ends.flagged (he : Ends t t') (h : Flagged t) : Flagged t' := by
  rcases h with h | h | h | h | h
  · rw [Text.occursIn_eq_false_iff, he.infix_iff (by decide), ← Text.occursIn_eq_false_iff] at h
    exact Or.inl h
  · refine Or.inr (Or.inl (Text.anyOccursIn_eq_false_iff.2 fun w hw hin => Text.anyOccursIn_eq_false_iff.1 h w hw ?_))
    have hall : ∀ w ∈ waitMarkers, Compact w := by decide
    exact (he.infix_iff (hall w hw)).2 hin
  · rw [Text.occursIn_iff, he.infix_iff (by decide), ← Text.occursIn_iff] at h
    exact Or.inr (Or.inr (Or.inl h))
  · rw [Text.occursIn_iff, he.infix_iff (by decide), ← Text.occursIn_iff] at h
    exact Or.inr (Or.inr (Or.inr (Or.inl h)))
  · exact Or.inr (Or.inr (Or.inr (Or.inr fun hd => h (he.declares hd))))

/-! ### Default exports -/

theorem Orderly.sheltered (ho : Orderly t)
    (hsign : Text.occursIn "ErrorBoundary".toList t = true →
      Text.occursIn "ErrorBoundary".toList (ensureSingleDefaultExport t) = true)
    (h : Sheltered t) : Sheltered (ensureSingleDefaultExport t) := by
  rcases h with h | h | h | h
  · refine Or.inl (Text.anyOccursIn_eq_false_iff.2 fun w hw hin => Text.anyOccursIn_eq_false_iff.1 h w hw ?_)
    have hall : ∀ w ∈ riskMarkers, Compact w ∧ ¬ w <:+: "export".toList ∧ ¬ w <:+: "default".toList := by decide
    obtain ⟨hcompact, hexport, hdefault⟩ := hall w hw
    exact ho.occurs hcompact hexport hdefault hin
  · exact Or.inr (Or.inl (hsign h))
  · exact Or.inr (Or.inr (Or.inl (ho.tryBlock h)))
  · refine Or.inr (Or.inr (Or.inr ?_))
    rw [← Bool.not_eq_true] at h ⊢
    exact fun hnew => h (ho.defaultFunction hnew)

theorem Orderly.flagged (ho : Orderly t)
    (hsigns : ∀ w ∈ ["loading", "isLoading"].map String.toList, Text.occursIn w t = true →
      Text.occursIn w (ensureSingleDefaultExport t) = true)
    (h : Flagged t) : Flagged (ensureSingleDefaultExport t) := by
  rcases h with h | h | h | h | h
  · rw [Text.occursIn_eq_false_iff] at h
    exact Or.inl (Text.occursIn_eq_false_iff.2 fun hin =>
      h (ho.occurs (by decide) (by decide) (by decide) hin))
  · refine Or.inr (Or.inl (Text.anyOccursIn_eq_false_iff.2 fun w hw hin => Text.anyOccursIn_eq_false_iff.1 h w hw ?_))
    have hall : ∀ w ∈ waitMarkers, Compact w ∧ ¬ w <:+: "export".toList ∧ ¬ w <:+: "default".toList := by decide
    obtain ⟨hcompact, hexport, hdefault⟩ := hall w hw
    exact ho.occurs hcompact hexport hdefault hin
  · exact Or.inr (Or.inr (Or.inl (hsigns _ (by decide) h)))
  · exact Or.inr (Or.inr (Or.inr (Or.inl (hsigns _ (by decide) h))))
  · exact Or.inr (Or.inr (Or.inr (Or.inr fun hd => h (ho.declares hd))))

theorem Orderly.handled (ho : Orderly t)
    (hcatch : catchWord.occursIn t = true → catchWord.occursIn (ensureSingleDefaultExport t) = true)
    (h : Handled t) : Handled (ensureSingleDefaultExport t) := by
  have hword {w : Text} (hw : Compact w) (hexport : ¬ w <:+: "export".toList) (hdefault : ¬ w <:+: "default".toList)
      (h : Text.occursIn w t = false) : Text.occursIn w (ensureSingleDefaultExport t) = false := by
    rw [Text.occursIn_eq_false_iff] at h ⊢
    exact fun hin => h (ho.occurs hw hexport hdefault hin)
  rcases h with h | h | h | h | h
  · exact Or.inl (hword (by decide) (by decide) (by decide) h)
  · exact Or.inr (Or.inl (hword (by decide) (by decide) (by decide) h))
  · exact Or.inr (Or.inr (Or.inl (ho.tryBlock h)))
  · exact Or.inr (Or.inr (Or.inr (Or.inl (hcatch h))))
  · refine Or.inr (Or.inr (Or.inr (Or.inr fun u k b z hw => ?_)))
    obtain ⟨u', k', b', z', hw'⟩ := ho.wraps ⟨u, k, b, z, hw⟩
    exact h u' k' b' z' hw'

/-! ### The whole pass -/

/-- A text after all repairs but the last. -/
def hardened (t : Text) : Text :=
  fixInterfaceSemicolons (addErrorHandling (addLoadingState (addFallbackRender t)))

/-- Words that say that a repair has been made. -/
def signs : List Text := ["ErrorBoundary", "loading", "isLoading"].map String.toList

/-- Putting the default exports in order leaves no trace: statements go without one and take no last sign along, and a
component that is not small does not become small. -/
structure Settles (t : Text) : Prop where
  orderly : Orderly (hardened t)
  signs : ∀ w ∈ signs, Text.occursIn w (hardened t) = true → Text.occursIn w (transform t) = true
  handling : catchWord.occursIn (hardened t) = true → catchWord.occursIn (transform t) = true
  size : (transform t).length < smallComponentLimit → (addFallbackRender t).length < smallComponentLimit

/-- **Hardening a text twice is hardening it once**, if its default exports are put in order without a trace. -/
theorem transform_idempotent_of_settles (h : Settles t) : transform (transform t) = transform t := by
  obtain ⟨ho, hsigns, hcatch, hsize⟩ := h
  have heq : transform t = ensureSingleDefaultExport (hardened t) := rfl
  have hends := ends_fixInterfaceSemicolons (addErrorHandling (addLoadingState (addFallbackRender t)))
  -- Each repair leaves the result alone.
  have hsheltered : Sheltered (transform t) := by
    refine ho.sheltered (hsigns _ (by decide)) ?_
    exact of_steps (fun _ _ he h => he.sheltered h) hends (sheltered_addFallbackRender t).addLoadingState.addErrorHandling
  have hflagged : addLoadingState (transform t) = transform t := by
    by_cases hsmall : (transform t).length < smallComponentLimit
    · refine addLoadingState_of_flagged (ho.flagged (fun w hw => hsigns w ?_) ?_)
      · exact List.mem_of_mem_tail hw
      · exact of_steps (fun _ _ he h => he.flagged h) hends (flagged_addLoadingState (hsize hsmall)).addErrorHandling
    · exact addLoadingState_of_long (by omega)
  have hhandled : Handled (transform t) := by
    refine ho.handled hcatch ?_
    exact of_steps (fun _ _ he h => he.handled h) hends (handled_addErrorHandling _)
  have hended : AllEnded [] (transform t) := ho.allEnded (allEnded_fixInterfaceSemicolons _)
  calc transform (transform t)
      = ensureSingleDefaultExport (fixInterfaceSemicolons (addErrorHandling (addLoadingState (transform t)))) := by
        rw [transform, addFallbackRender_of_sheltered hsheltered]
    _ = ensureSingleDefaultExport (transform t) := by
        rw [hflagged, addErrorHandling_of_handled hhandled, fixInterfaceSemicolons_of_allEnded hended]
    _ = transform t := by rw [heq, ho.settles]

/-- A module with an asynchronous function, an interface and two default exports. -/
def twoExports : Text :=
  ("const load = async (url) => \x7b\n  await get(url);\n\x7d;\n" ++
   "interface Props \x7b\n  url: string\n\x7d\n" ++
   "export default load;\nexport default Props;").toList

/-- Such a module gets error handling and a semicolon and loses an export, and is settled then. -/
theorem transform_idempotent_of_settles_twoExports :
    Settles twoExports ∧ transform (transform twoExports) = transform twoExports := by
  -- One evaluation of the text answers everything; the kernel reads a list of characters faster than a string.
  have hall : (firstFunction.search (hardened twoExports)).isNone = true ∧
      (∀ x ∈ takenOut (kept (hardened twoExports)) [] (Text.lines (hardened twoExports)), isTraceless x.1 x.2 = true) ∧
      (∀ w ∈ signs, Text.occursIn w (hardened twoExports) = true → Text.occursIn w (transform twoExports) = true) ∧
      (catchWord.occursIn (hardened twoExports) = true → catchWord.occursIn (transform twoExports) = true) ∧
      ((transform twoExports).length < smallComponentLimit →
        (addFallbackRender twoExports).length < smallComponentLimit) := by
    unfold twoExports
    rewrite [String.toList_append, String.toList_append, String.toList_ofList, String.toList_ofList, String.toList_ofList]
    decide +kernel
  obtain ⟨hno, htaken, hsigns, hcatch, hsize⟩ := hall
  have h : Settles twoExports := by
    refine ⟨⟨htaken, fun f hf => ?_⟩, hsigns, hcatch, hsize⟩
    rw [hf] at hno
    cases hno
  exact ⟨h, transform_idempotent_of_settles h⟩

/-- A component that fetches something, and a second default export under the name that keeps the fallback out. -/
def keptOut : Text := "export default function A() \x7b\n  fetch(\n\x7d\nexport default ErrorBoundary;".toList

/-- Once the second export is taken out, nothing keeps the fallback out any more. -/
theorem transform_adds_fallback_later : transform (transform keptOut) ≠ transform keptOut := by
  have hfirst : transform keptOut = "export default function A() \x7b\n  fetch(\n\x7d".toList := by
    unfold keptOut
    rewrite [String.toList_ofList, String.toList_ofList]
    decide +kernel
  rw [hfirst]
  unfold transform addFallbackRender fallbackWrapper
  repeat rewrite [String.toList_append]
  repeat rewrite [String.toList_ofList]
  decide +kernel

end LayeredFix.Pass.Hardening
