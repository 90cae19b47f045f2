import LayeredFix.Proofs.Convention.Imports

/-!
# When the pass over framework conventions is idempotent

The five repairs feed each other, and a repair may be refused at first and made later: the length that decides about
metadata is measured before names are shortened, and a mark of server code may be part of a name that is shortened. So
the pass is idempotent for texts that are `Tidy` (`transform_idempotent_of_tidy`), and not for all
(`transform_adds_metadata_later`).

Of a tidy text it is asked that the repairs of marks and of import blocks come to rest, and that shortening neither
brings the text below the limit nor takes the last sign of server code away.
-/

namespace LayeredFix.Pass.Convention

open Pattern
open Guard (clientDirective hasClientDirective markClient)

/-! ### Between the repairs -/

/-- A text after the first two repairs. -/
def flattened (t : Text) : Text := fixCorruptedImports (fixClientDirectives t)

/-- A text with the names of pages and layouts shortened, if it shows a page or a layout. -/
def named (t : Text) : Text := if Text.anyOccursIn routerMarkers t then shorten t else t

/-- A text with short names is a page for the server without metadata. -/
def lacksMetadata (t : Text) : Bool :=
  Text.occursIn (exportNamed "Page") t && !Text.occursIn "export const metadata".toList t &&
    !Text.occursIn "generateMetadata".toList t && !hasClientDirective t

theorem transform_eq (t : Text) : transform t = fixRouterPatterns (spaced (flattened t)) := rfl

theorem fixRouterPatterns_eq (t : Text) : fixRouterPatterns t =
    if Text.anyOccursIn routerMarkers t then
      if lacksMetadata (shorten t) && decide (t.length < smallPageLimit) then defaultMetadata ++ shorten t else shorten t
    else t := by
  unfold fixRouterPatterns
  cases Text.anyOccursIn routerMarkers t <;> rfl

/-- The last repair: names, and then metadata. -/
theorem fixRouterPatterns_cases (t : Text) :
    fixRouterPatterns t = named t ∧
        (Text.anyOccursIn routerMarkers t = true → lacksMetadata (named t) = true → smallPageLimit ≤ t.length) ∨
      fixRouterPatterns t = defaultMetadata ++ named t ∧ lacksMetadata (named t) = true ∧ t.length < smallPageLimit := by
  rw [fixRouterPatterns_eq, named]
  cases hrouter : Text.anyOccursIn routerMarkers t with
  | false => exact Or.inl ⟨rfl, fun h => nomatch h⟩
  | true =>
    rw [if_pos rfl, if_pos rfl]
    split
    · rename_i h
      rw [Bool.and_eq_true, decide_eq_true_eq] at h
      exact Or.inr ⟨rfl, h⟩
    · rename_i h
      rw [Bool.and_eq_true, decide_eq_true_eq, not_and, Nat.not_lt] at h
      exact Or.inl ⟨rfl, fun _ => h⟩

/-- The pass has come to rest in each of its repairs. -/
structure Tidy (t : Text) : Prop where
  /-- The repairs of marks come to rest. -/
  marks : fixClientDirectives (flattened t) = flattened t
  /-- No import block is left open. -/
  blocks : Closed (flattened t)
  /-- No import has the head of an export. -/
  imports : ∀ l ∈ Text.lines (named (spaced (flattened t))), isImport l = true → ¬ exportHead <:+: l
  /-- Shortening does not make a page small. -/
  length : (named (spaced (flattened t))).length < smallPageLimit → (spaced (flattened t)).length < smallPageLimit
  /-- Shortening does not take the last sign of server code away. -/
  server : Text.anyOccursIn serverMarkers (spaced (flattened t)) = true →
    Text.anyOccursIn serverMarkers (named (spaced (flattened t))) = true

/-! ### What shortening keeps -/

/-- What shortening to one word keeps is kept by shortening. -/
theorem named_induction {motive : Text → Prop} {t : Text} (ht : motive t)
    (h : ∀ word ∈ shortWords, ∀ t, motive t → motive (shortenTo word t)) : motive (named t) := by
  unfold named
  split
  · exact h _ (by decide) _ (h _ (by decide) _ ht)
  · exact ht

theorem shortenTo_isShort {word : String} (hword : word ∈ shortWords) (t : Text) :
    Renaming IsName IsShort t (shortenTo word t) := by
  refine (shortenTo_renaming hword t).mono (fun _ hn => hn) fun n hn => ?_
  rw [hn]
  exact List.mem_map_of_mem hword

theorem Marked.named {t : Text} (h : Marked t) : Marked (named t) :=
  named_induction h fun _ hword _ ht => ht.renaming (fun _ hn => hn) (fun _ => IsShort.isName) (shortenTo_isShort hword _)

theorem countP_named (t : Text) :
    (Text.lines (named t)).countP isDirectiveLine = (Text.lines t).countP isDirectiveLine :=
  named_induction (motive := fun t' => (Text.lines t').countP isDirectiveLine = (Text.lines t).countP isDirectiveLine) rfl
    fun word hword t' ih => by
      have hlines := (shortenTo_isShort hword t').lines (fun _ hn => hn) fun _ => IsShort.isName
      rw [← ih, ← countP_congr (hlines.imp fun _ _ hl => hl.readsAlike (fun _ hn => hn) fun _ => IsShort.isName)]

theorem Closed.named {t : Text} (h : Closed t) : Closed (named t) :=
  named_induction h fun _ hword _ ht => ht.renaming (fun _ hn => hn) (shortenTo_isShort hword _)

/-- Shortening makes no sign of an export. -/
theorem exportMarkers_of_named {t : Text} (h : Text.anyOccursIn exportMarkers (named t) = true) :
    Text.anyOccursIn exportMarkers t = true := by
  revert h
  refine named_induction (motive := fun t' => Text.anyOccursIn exportMarkers t' = true → Text.anyOccursIn exportMarkers t = true)
    id fun word hword t' ih h => ih ?_
  rcases (shortenTo_isShort hword t').eq_or with heq | ⟨a, b, -, ht', -⟩
  · rwa [heq]
  · have hhead : "export default function".toList <:+: exportHead := (Text.occursIn_iff _ _).1 (by with_unfolding_all decide)
    refine List.any_eq_true.2 ⟨"export default function".toList, by decide, (Text.occursIn_iff _ _).2 ?_⟩
    exact hhead.trans ⟨a, b, by rw [ht']; simp⟩

/-- The signs of a client component. -/
def clientSigns : List Text := coreHooks ++ eventHandlers ++ browserUses

/-- Shortening makes no sign of a client component. -/
theorem clientSigns_of_named {t : Text} (h : Text.anyOccursIn clientSigns (named t) = true) :
    Text.anyOccursIn clientSigns t = true := by
  have happart : ∀ w ∈ clientSigns, ' ' ∉ w ∧ ∀ n ∈ shortWords.map String.toList, ∀ y ∈ n.tails, y ≠ [] →
      ¬ y <+: w ∧ ¬ w <+: y := by decide
  revert h
  refine named_induction (motive := fun t' => Text.anyOccursIn clientSigns t' = true → Text.anyOccursIn clientSigns t = true)
    id fun word hword t' ih h => ih ?_
  obtain ⟨w, hw, hin⟩ := List.any_eq_true.1 h
  obtain ⟨hblank, hapart⟩ := happart w hw
  refine List.any_eq_true.2 ⟨w, hw, ?_⟩
  rw [Text.occursIn_iff] at hin ⊢
  refine (shortenTo_isShort hword t').infix_before hblank (fun n hn y hy => hapart n hn y ?_) [] hin
  rwa [List.mem_tails]

/-- A change of names makes no mark of client code. -/
theorem Renaming.hasClientDirective {P Q : Text → Prop} {t t' : Text} (hQ : ∀ n, Q n → IsName n) (h : Renaming P Q t t')
    (ht' : hasClientDirective t' = true) : hasClientDirective t = true := by
  have hall : ∀ w ∈ Guard.directiveSpellings.map String.toList, ∃ c ∈ ['\'', '"'], w = c :: ((w.drop 1).dropLast ++ [c]) ∧
      ¬ exportHead <:+: (w.drop 1).dropLast := by with_unfolding_all decide
  have hquotes : ∀ c ∈ ['\'', '"'], Outside c := by with_unfolding_all decide
  obtain ⟨w, hw, hin⟩ := List.any_eq_true.1 ht'
  obtain ⟨c, hc, heq, hno⟩ := hall w hw
  refine List.any_eq_true.2 ⟨w, hw, ?_⟩
  rw [Text.occursIn_iff, heq] at hin ⊢
  exact h.infix_of_outside hQ (hquotes c hc) (hquotes c hc) hno hin

/-- The mark of client code stays, and none is made. -/
theorem hasClientDirective_named (t : Text) : hasClientDirective (named t) = hasClientDirective t := by
  refine named_induction (motive := fun t' => hasClientDirective t' = hasClientDirective t) rfl fun word hword t' ih => ?_
  have hr := shortenTo_isShort hword t'
  rw [← ih, Bool.eq_iff_iff]
  exact ⟨hr.hasClientDirective fun _ => IsShort.isName, hr.symm.hasClientDirective fun _ h => h⟩

/-! ### Metadata -/

theorem defaultMetadata_append (t : Text) : defaultMetadata ++ t = defaultMetadata.dropLast ++ '\n' :: t := by
  have hlast : defaultMetadata = defaultMetadata.dropLast ++ ['\n'] := by decide
  conv_lhs => rw [hlast]
  rw [List.append_assoc, List.singleton_append]

theorem anyOccursIn_metadata {ws : List Text} (h : ∀ w ∈ ws, '\n' ∉ w ∧ Text.occursIn w defaultMetadata.dropLast = false)
    (t : Text) : Text.anyOccursIn ws (defaultMetadata ++ t) = Text.anyOccursIn ws t := by
  rw [defaultMetadata_append, Text.anyOccursIn_append_cons h]

theorem hasClientDirective_metadata (t : Text) : hasClientDirective (defaultMetadata ++ t) = hasClientDirective t :=
  anyOccursIn_metadata (by decide) t

theorem Closed.metadata {t : Text} (h : Closed t) : Closed (defaultMetadata ++ t) := by
  rw [defaultMetadata_append]
  refine h.front ?_
  rw [← Text.occursIn_iff]
  decide

theorem fresh_metadata {t : Text} (h : Fresh [] (Text.lines t)) : Fresh [] (Text.lines (defaultMetadata ++ t)) := by
  have hno : ∀ l ∈ Text.lines defaultMetadata.dropLast, isImport l = false := by decide
  have heq : importsOf (Text.lines (defaultMetadata ++ t)) = importsOf (Text.lines t) := by
    rw [defaultMetadata_append, Text.lines_append_newline]
    generalize Text.lines defaultMetadata.dropLast = front at hno
    induction front with
    | nil => rfl
    | cons l front ih =>
      rw [List.forall_mem_cons] at hno
      rw [List.cons_append, importsOf_cons_of_not hno.1, ih hno.2]
  rw [Fresh, heq]
  exact h

/-- No head of an export runs out of the metadata. -/
theorem ShortFor.metadata {word : String} {t : Text} (h : ShortFor word t) : ShortFor word (defaultMetadata ++ t) := by
  intro a n rest heq hn hend hin
  rw [defaultMetadata_append] at heq
  have hhead : exportHead <:+: defaultMetadata.dropLast → False := by
    rw [← Text.occursIn_iff]
    with_unfolding_all decide
  have hline : '\n' ∉ exportHead := by with_unfolding_all decide
  rcases List.append_eq_append_iff.1 heq with ⟨w, rfl, hw⟩ | ⟨w, hfront, hw⟩
  · cases w with
    | nil =>
      obtain ⟨u, hu⟩ := exists_exportHead_eq_cons
      simp [hu] at hw
    | cons c w =>
      obtain ⟨-, ht⟩ := List.cons.inj hw
      exact h w n rest ht hn hend hin
  · have hpre : exportHead <+: w ++ '\n' :: t := hw ▸ List.prefix_append _ _
    exact absurd ((Text.prefix_of_notMem hpre hline).isInfix.trans (hfront ▸ (List.suffix_append a w).isInfix)) hhead

/-! ### The repairs come to rest -/

/-- The mark is not added where the text has it, where something is missing for it, or where there is a sign of server
code. -/
theorem addMissingClientDirective_eq_self_iff {t : Text} : addMissingClientDirective t = t ↔
    (hasClientDirective t = false → Text.anyOccursIn exportMarkers t = true → Text.anyOccursIn clientSigns t = true →
      Text.anyOccursIn serverMarkers t = true) := by
  have hlonger : markClient t ≠ t := fun heq => by
    have hlength := congrArg List.length heq
    have hmark : 0 < (clientDirective ++ "\n\n").toList.length := by decide
    rw [markClient, List.length_append] at hlength
    omega
  unfold addMissingClientDirective
  rw [← clientSigns]
  cases hasClientDirective t <;> cases Text.anyOccursIn exportMarkers t <;> cases Text.anyOccursIn clientSigns t <;>
    cases Text.anyOccursIn serverMarkers t <;> simp [hlonger]

theorem lacksMetadata_metadata (t : Text) : lacksMetadata (defaultMetadata ++ t) = false := by
  have hin : Text.occursIn "export const metadata".toList (defaultMetadata ++ t) = true := by
    have hfront : "export const metadata".toList <:+: defaultMetadata := (Text.occursIn_iff _ _).1 (by decide)
    exact (Text.occursIn_iff _ _).2 (hfront.trans (List.prefix_append _ t).isInfix)
  unfold lacksMetadata
  rw [hin, Bool.not_true, Bool.and_false, Bool.false_and, Bool.false_and]

/-- A text that shows a page or a layout has short names only, once they have been shortened. -/
theorem isShort_named {t : Text} (h : Text.anyOccursIn routerMarkers t = true) :
    ∀ word ∈ shortWords, ShortFor word (named t) := by
  rw [named, if_pos h]
  exact isShort_shorten t

theorem named_of_isShort {t : Text} (h : ∀ word ∈ shortWords, ShortFor word t) : named t = t := by
  unfold named
  split
  · exact shorten_of_isShort h
  · rfl

/-- **Names and metadata are settled at once**, if shortening does not make a page small. -/
theorem fixRouterPatterns_idempotent {t : Text}
    (hlength : (named t).length < smallPageLimit → t.length < smallPageLimit) :
    fixRouterPatterns (fixRouterPatterns t) = fixRouterPatterns t := by
  rcases hrouter : Text.anyOccursIn routerMarkers t with _ | _
  · have hsame : fixRouterPatterns t = t := by simp [fixRouterPatterns_eq, hrouter]
    rw [hsame, hsame]
  · have hshort := isShort_named hrouter
    rcases fixRouterPatterns_cases t with ⟨heq, hlarge⟩ | ⟨heq, -⟩
    · rw [heq]
      rcases fixRouterPatterns_cases (named t) with ⟨heq', -⟩ | ⟨-, hlacks, hsmall⟩
      · rw [heq', named_of_isShort hshort]
      · rw [named_of_isShort hshort] at hlacks
        exact absurd (hlength hsmall) (Nat.not_lt.2 (hlarge hrouter hlacks))
    · rw [heq]
      have hshort' : ∀ word ∈ shortWords, ShortFor word (defaultMetadata ++ named t) := fun word hword =>
        (hshort word hword).metadata
      rcases fixRouterPatterns_cases (defaultMetadata ++ named t) with ⟨heq', -⟩ | ⟨-, hlacks, -⟩
      · rw [heq', named_of_isShort hshort']
      · rw [named_of_isShort hshort', lacksMetadata_metadata] at hlacks
        cases hlacks

/-- What the first four repairs leave alone once the last one has been made. -/
structure AtRest (t : Text) : Prop where
  marked : Marked t
  closed : Closed t
  fresh : Fresh [] (Text.lines t)
  mark : addMissingClientDirective t = t
  spacing : fixDirectiveSpacing t = t

theorem AtRest.transform_eq {t : Text} (h : AtRest t) : transform t = fixRouterPatterns t := by
  unfold transform
  rw [fixClientDirectives_of_marked h.marked, fixCorruptedImports_of h.closed h.fresh, h.mark, h.spacing]

/-- Metadata disturbs none of the other repairs. -/
theorem AtRest.metadata {t : Text} (h : AtRest t) (hmark : hasClientDirective t = false) : AtRest (defaultMetadata ++ t) where
  marked := Or.inl (countP_eq_zero (by rw [hasClientDirective_metadata, hmark]))
  closed := h.closed.metadata
  fresh := fresh_metadata h.fresh
  mark := by
    have hwords : ∀ w ∈ exportMarkers ++ clientSigns ++ serverMarkers, '\n' ∉ w ∧
        Text.occursIn w defaultMetadata.dropLast = false := by decide +kernel
    simp only [List.forall_mem_append] at hwords
    rw [addMissingClientDirective_eq_self_iff, hasClientDirective_metadata, anyOccursIn_metadata hwords.1.1,
      anyOccursIn_metadata hwords.1.2, anyOccursIn_metadata hwords.2]
    exact addMissingClientDirective_eq_self_iff.1 h.mark
  spacing := by
    rcases fixDirectiveSpacing_cases (defaultMetadata ++ t) with hsame | ⟨r, hr⟩
    · exact hsame
    · have hhead : defaultMetadata.head? = some 'e' ∧ clientDirective.toList.head? = some '\'' := by decide
      have hfirst := congrArg List.head? hr
      rw [List.head?_append, List.head?_append, hhead.1, hhead.2] at hfirst
      exact absurd (Option.some.inj hfirst) (by decide)

/-- **The first four repairs of a tidy text come to rest**, and shorter names disturb none of them. -/
theorem Tidy.atRest {x : Text} (h : Tidy x) : AtRest (named (spaced (flattened x))) := by
  have hspaced := spaced_spaced (flattened x)
  have hfresh : Fresh [] (Text.lines (spaced (flattened x))) := by
    rw [Fresh, hspaced.importsOf_eq]
    exact fresh_fixCorruptedImports _
  refine ⟨((fixClientDirectives_eq_self_iff.1 h.marks).spaced hspaced).named, (h.blocks.spaced hspaced).named, ?_, ?_, ?_⟩
  · have himports := h.imports
    unfold named at himports ⊢
    split
    · rename_i hrouter
      rw [if_pos hrouter] at himports
      exact fresh_shorten hfresh himports
    · exact hfresh
  · rw [addMissingClientDirective_eq_self_iff, hasClientDirective_named]
    intro hmark hexport hsign
    -- Nothing was added to the text, so there was a reason not to, and it is left.
    obtain ⟨hsame, hadd⟩ := spaced_of_not_hasClientDirective hmark
    rw [← hsame] at hadd
    exact h.server (addMissingClientDirective_eq_self_iff.1 hadd hmark (exportMarkers_of_named hexport)
      (clientSigns_of_named hsign))
  · exact named_induction (motive := fun t => fixDirectiveSpacing t = t) (fixDirectiveSpacing_idempotent _)
      fun _ hword t ht => (shortenTo_isShort hword t).fixDirectiveSpacing (fun _ h => h) (fun _ => IsShort.isName) ht

/-- **The pass is idempotent for tidy texts.** -/
theorem transform_idempotent_of_tidy {x : Text} (h : Tidy x) : transform (transform x) = transform x := by
  have hrest := h.atRest
  have hagain := fixRouterPatterns_idempotent h.length
  rw [transform_eq x]
  rcases fixRouterPatterns_cases (spaced (flattened x)) with ⟨heq, -⟩ | ⟨heq, hlacks, -⟩
  · rw [heq] at hagain ⊢
    rw [hrest.transform_eq, hagain]
  · have hmark : hasClientDirective (named (spaced (flattened x))) = false := by
      simp only [lacksMetadata, Bool.and_eq_true, Bool.not_eq_true'] at hlacks
      exact hlacks.2
    rw [heq] at hagain ⊢
    rw [(hrest.metadata hmark).transform_eq, hagain]

/-- A page whose name is not short. -/
def namedPage (comment : Text) : Text := "export default function PageOfTheDocumentation() \x7b\x7d\n// ".toList ++ comment

theorem transform_idempotent_of_tidy_page : Tidy (namedPage []) ∧
    transform (transform (namedPage [])) = transform (namedPage []) := by
  have hclosed : Closed (flattened (namedPage [])) :=
    ⟨occursIn_eq_false_iff.1 (by decide), occursIn_eq_false_iff.1 (by decide)⟩
  have htidy : Tidy (namedPage []) :=
    ⟨by decide, hclosed, by decide, by decide, by decide⟩
  exact ⟨htidy, transform_idempotent_of_tidy htidy⟩

/-- **The pass is not idempotent for all texts**: with its long name the page is not small, with the short one it is. -/
theorem transform_adds_metadata_later : transform (transform (namedPage (List.replicate 460 'x'))) ≠
    transform (namedPage (List.replicate 460 'x')) := by
  decide +kernel

end LayeredFix.Pass.Convention
