import LayeredFix.Proofs.Config.Document
import LayeredFix.Proofs.Json.Strings
import LayeredFix.Proofs.Text.Reading

/-!
# Configuration files that were brought into shape

The fields of a file that was brought into shape are set already, so they are set to what they are
(`fixCompiler_fixed`, `fixManifest_fixed`). The kind of a file is told from the text alone. A manifest may turn into
another kind when it is written, because an escape in one of its strings is written as the character it stands for: then
the pass changes the file again (`transform_changes_again`). It does not if no string hides such a sign
(`transform_settles`).
-/

namespace LayeredFix.Pass.Config

open Json (Proper maxNesting renderString strings memberStrings)

variable {ms ms' : Entries Json}

/-! ### Fields that are set already -/

theorem get?_putIfMissing_of_some {name key : Text} {value v : Json} (h : Entries.get? key ms = some v) :
    Entries.get? key (putIfMissing name value ms) = some v :=
  (keeps_putIfMissing name value ms : Keeps [] ms _) key v (by simp) h

theorem has_putIfMissing (name : Text) (value : Json) (ms : Entries Json) :
    Entries.has name (putIfMissing name value ms) = true := by
  unfold putIfMissing
  split
  · assumption
  · rw [Entries.has_eq_isSome, Entries.get?_put, if_pos rfl, Option.isSome_some]

theorem has_putIfMissing_of_has {name key : Text} {value : Json} (h : Entries.has key ms = true) :
    Entries.has key (putIfMissing name value ms) = true := by
  rw [Entries.has_eq_isSome, Option.isSome_iff_exists] at h ⊢
  obtain ⟨v, hv⟩ := h
  exact ⟨v, get?_putIfMissing_of_some hv⟩

theorem putIfMissing_of_has {name : Text} {value : Json} (h : Entries.has name ms = true) :
    putIfMissing name value ms = ms := if_pos h

/-- The fields of a compiler configuration that was brought into shape. -/
theorem fields_fixCompiler (h : fixCompiler ms = .ok ms') :
    ∃ options, Entries.get? "compilerOptions".toList ms' = some (.object (Entries.merge options compilerOptions)) ∧
      Entries.has "include".toList ms' = true ∧ Entries.has "exclude".toList ms' = true := by
  unfold fixCompiler at h
  split at h
  · cases h
  · rename_i options _
    obtain rfl := Except.ok.inj h
    generalize hput : Entries.put "compilerOptions".toList (.object (Entries.merge options compilerOptions)) ms = es
    have hes : Entries.get? "compilerOptions".toList es = some (.object (Entries.merge options compilerOptions)) := by
      rw [← hput, Entries.get?_put, if_pos rfl]
    exact ⟨options, get?_putIfMissing_of_some (get?_putIfMissing_of_some hes),
      has_putIfMissing_of_has (has_putIfMissing ..), has_putIfMissing ..⟩

/-- A compiler configuration that was brought into shape is left as it is. -/
theorem fixCompiler_fixed (h : fixCompiler ms = .ok ms') : fixCompiler ms' = .ok ms' := by
  obtain ⟨options, hoptions, hinclude, hexclude⟩ := fields_fixCompiler h
  have hnames : (Entries.names compilerOptions).Nodup := by decide
  unfold fixCompiler membersOf
  rw [hoptions]
  dsimp only
  rw [Entries.merge_merge_self hnames, Entries.put_of_get? hoptions, putIfMissing_of_has hinclude,
    putIfMissing_of_has hexclude]

/-- The fields of a manifest that was brought into shape. -/
theorem fields_fixManifest (h : fixManifest ms = .ok ms') : ∃ old engines,
    Entries.get? "scripts".toList ms' = some (.object (Entries.merge old scripts)) ∧
      Entries.get? "engines".toList ms' = some (.object (Entries.put "node".toList nodeVersion engines)) := by
  unfold fixManifest at h
  split at h
  · cases h
  · rename_i old _
    dsimp only at h
    split at h
    · cases h
    · rename_i engines _
      have hne : "scripts".toList ≠ "engines".toList := by decide
      obtain rfl := Except.ok.inj h
      refine ⟨old, engines, ?_, ?_⟩
      · rw [Entries.get?_put, if_neg hne, Entries.get?_put, if_pos rfl]
      · rw [Entries.get?_put, if_pos rfl]

/-- A manifest that was brought into shape is left as it is. -/
theorem fixManifest_fixed (h : fixManifest ms = .ok ms') : fixManifest ms' = .ok ms' := by
  obtain ⟨old, engines, hscripts, hengines⟩ := fields_fixManifest h
  have hnames : (Entries.names scripts).Nodup := by decide
  have hnode : Entries.get? "node".toList (Entries.put "node".toList nodeVersion engines) = some nodeVersion := by
    rw [Entries.get?_put, if_pos rfl]
  unfold fixManifest membersOf
  rw [hscripts]
  dsimp only
  rw [Entries.merge_merge_self hnames, Entries.put_of_get? hscripts, hengines]
  dsimp only
  rw [Entries.put_of_get? hnode, Entries.put_of_get? hengines]

/-! ### The strings of a file -/

section
variable {P : Text → Prop}

theorem forall_strings_put {name : Text} {value : Json} (h : ∀ s ∈ memberStrings ms, P s) (hname : P name)
    (hvalue : ∀ s ∈ strings value, P s) : ∀ s ∈ memberStrings (Entries.put name value ms), P s := by
  induction ms with
  | nil => simpa [Entries.put, memberStrings] using And.intro hname hvalue
  | cons m ms ih =>
    obtain ⟨n, v⟩ := m
    rw [memberStrings, List.forall_mem_cons, List.forall_mem_append] at h
    rw [Entries.put]
    split
    · rw [memberStrings, List.forall_mem_cons, List.forall_mem_append]
      exact ⟨h.1, hvalue, h.2.2⟩
    · rw [memberStrings, List.forall_mem_cons, List.forall_mem_append]
      exact ⟨h.1, h.2.1, ih h.2.2⟩

theorem forall_strings_merge {newer : Entries Json} (h : ∀ s ∈ memberStrings ms, P s)
    (hnewer : ∀ s ∈ memberStrings newer, P s) : ∀ s ∈ memberStrings (Entries.merge ms newer), P s := by
  induction newer generalizing ms with
  | nil => exact h
  | cons m newer ih =>
    obtain ⟨n, v⟩ := m
    rw [memberStrings, List.forall_mem_cons, List.forall_mem_append] at hnewer
    exact ih (forall_strings_put h hnewer.1 hnewer.2.1) hnewer.2.2

theorem forall_strings_get? {name : Text} {v : Json} (h : ∀ s ∈ memberStrings ms, P s)
    (hv : Entries.get? name ms = some v) : ∀ s ∈ strings v, P s := by
  induction ms with
  | nil => cases hv
  | cons m ms ih =>
    obtain ⟨n, v'⟩ := m
    rw [memberStrings, List.forall_mem_cons, List.forall_mem_append] at h
    rw [Entries.get?] at hv
    split at hv
    · exact Option.some.inj hv ▸ h.2.1
    · exact ih h.2.2 hv

theorem forall_strings_membersOf {refuse : Json → ConfigError} {name : Text} {members : Entries Json}
    (h : ∀ s ∈ memberStrings ms, P s) (hok : membersOf refuse (Entries.get? name ms) = .ok members) :
    ∀ s ∈ memberStrings members, P s := by
  unfold membersOf at hok
  split at hok
  · obtain rfl := Except.ok.inj hok
    exact fun s hs => by cases hs
  · rename_i _ hget
    obtain rfl := Except.ok.inj hok
    exact forall_strings_get? h hget
  · split at hok
    · obtain rfl := Except.ok.inj hok
      exact fun s hs => by cases hs
    · cases hok

/-- The strings that are set in a manifest. -/
def setStrings : List Text :=
  ["scripts".toList, "engines".toList, "node".toList] ++ strings nodeVersion ++ memberStrings scripts

/-- The strings of a manifest that was brought into shape are those it had and those that are set. -/
theorem forall_strings_fixManifest (hset : ∀ s ∈ setStrings, P s) (h : ∀ s ∈ memberStrings ms, P s)
    (hok : fixManifest ms = .ok ms') : ∀ s ∈ memberStrings ms', P s := by
  unfold setStrings at hset
  simp only [List.forall_mem_append, List.forall_mem_cons] at hset
  obtain ⟨⟨⟨hscripts, hengines, hnode, -⟩, hversion⟩, hadded⟩ := hset
  unfold fixManifest at hok
  split at hok
  · cases hok
  · rename_i old hold
    have hold' : ∀ s ∈ strings (.object (Entries.merge old scripts)), P s :=
      forall_strings_merge (forall_strings_membersOf h hold) hadded
    have hmerged := forall_strings_put h hscripts hold'
    dsimp only at hok
    split at hok
    · cases hok
    · rename_i engines hget
      obtain rfl := Except.ok.inj hok
      exact forall_strings_put hmerged hengines
        (forall_strings_put (forall_strings_membersOf hmerged hget) hnode hversion)

end

/-! ### The kind of a written file -/

theorem head_dump (ms : Entries Json) : ∃ t, dump ms = '\x7b' :: t := by
  cases ms with
  | nil => exact ⟨_, rfl⟩
  | cons m ms =>
    obtain ⟨name, v⟩ := m
    exact ⟨_, rfl⟩

theorem isObject_dump (ms : Entries Json) : ((Text.trimLeft (dump ms)).head? == some '\x7b') = true := by
  obtain ⟨t, ht⟩ := head_dump ms
  rw [ht]
  rfl

theorem string_infix_renderMembers {name : Text} (h : name ∈ Entries.names ms) (level : Nat) (after : Text) :
    renderString name <:+: Json.renderMembers level ms after := by
  induction ms with
  | nil => cases h
  | cons m ms ih =>
    obtain ⟨n, v⟩ := m
    rw [Json.renderMembers, Json.renderAt_eq]
    rcases List.mem_cons.1 h with rfl | h
    · exact ⟨',' :: Json.newline level, _, by simp only [List.append_assoc, List.cons_append]; rfl⟩
    · refine (ih h).trans (List.IsSuffix.isInfix ?_)
      exact ⟨',' :: Json.newline level ++ renderString n ++ ':' :: ' ' :: Json.renderAt level v [], by simp⟩

/-- The name of a member is written. -/
theorem string_infix_dump {name : Text} (h : name ∈ Entries.names ms) : renderString name <:+: dump ms := by
  cases ms with
  | nil => cases h
  | cons m ms =>
    obtain ⟨n, v⟩ := m
    unfold dump Json.render
    rw [Json.renderAt, Json.renderAt_eq]
    rcases List.mem_cons.1 h with rfl | h
    · exact ⟨'\x7b' :: Json.newline 1, _, by simp only [List.append_assoc, List.cons_append]; rfl⟩
    · refine (string_infix_renderMembers h 1 (Json.newline 0 ++ ['\x7d'])).trans (List.IsSuffix.isInfix ?_)
      exact ⟨'\x7b' :: Json.newline 1 ++ renderString n ++ ':' :: ' ' :: Json.renderAt 1 v [], by simp⟩

/-! ### Signs of a kind -/

/-- The words that a text of some kind shows. -/
def signs : List Text := ["compilerOptions", "nextConfig", "module.exports"].map String.toList

/-- The signs that a string shows when it is written are shown by the text. -/
structure Shown (t : Text) (s : Text) : Prop where
  /-- The words are. -/
  word : ∀ w ∈ signs, w <:+: renderString s → w <:+: t
  /-- The fields of a framework configuration are. -/
  hint : frameworkHint.occursIn (renderString s) = true → frameworkHint.occursIn t = true

theorem shown_setStrings (t : Text) : ∀ s ∈ setStrings, Shown t s := by
  have hword : ∀ s ∈ setStrings, ∀ w ∈ signs, Text.occursIn w (renderString s) = false := by decide
  have hhint : ∀ s ∈ setStrings, frameworkHint.occursIn (renderString s) = false := by decide
  intro s hs
  refine ⟨fun w hw hin => ?_, fun h => ?_⟩
  · rw [← Text.occursIn_iff, hword s hs w hw] at hin
    cases hin
  · rw [hhint s hs] at h
    cases h

theorem exists_cons_infix {b : Char} {w t : Text} (hw : w.head? ≠ some b) (hne : w ≠ []) (h : w <:+: b :: t) :
    ∃ c, c :: w <:+: b :: t := by
  obtain ⟨a, z, heq⟩ := h
  rcases List.eq_nil_or_concat a with rfl | ⟨a, c, rfl⟩
  · obtain ⟨c, w, rfl⟩ := List.exists_cons_of_ne_nil hne
    rw [List.nil_append, List.cons_append] at heq
    exact absurd (congrArg some (List.cons.inj heq).1) hw
  · exact ⟨c, a, z, by rw [← heq]; simp⟩

/-- A sign of a kind in a written object stands in one of its strings. -/
theorem shown_of_infix_dump {t w : Text} (hproper : Proper maxNesting (.object ms))
    (hshown : ∀ s ∈ memberStrings ms, Shown t s) (hw : w ∈ signs) (h : w <:+: dump ms) : w <:+: t := by
  have hsigns : ∀ w ∈ signs, w.head? ≠ some '\x7b' ∧ w ≠ [] ∧ '"' ∉ w ∧ 'o' ∈ w := by decide
  have hd : Json.isToken 'o' = false := by decide
  obtain ⟨hhead, hne, hquote, hdw⟩ := hsigns w hw
  obtain ⟨t', ht'⟩ := head_dump ms
  obtain ⟨c, hin⟩ := exists_cons_infix hhead hne (ht' ▸ h)
  rw [← ht'] at hin
  obtain ⟨s, hs, hstring⟩ := Json.exists_string_of_infix hd hproper.fits hquote hdw hin
  exact (hshown s hs).word w hw ((List.suffix_cons c w).isInfix.trans hstring)

/-- The fields of a framework configuration that are looked for. -/
def hintWords : List String := ["reactStrictMode", "swcMinify", "experimental", "poweredByHeader", "images"]

/-- A hint is a word and a colon, behind something that is no part of a word. -/
theorem takes_frameworkHint {behind w rest : Text} {g g' : List (Nat × Text)} :
    frameworkHint.Takes behind g w rest g' ↔ behind.head?.any Text.isWord ≠ (w ++ rest).head?.any Text.isWord ∧
      ∃ word b, w = word ++ (b ++ [':']) ∧ (∃ hint ∈ hintWords, word = hint.toList) ∧
        (∀ c ∈ b, Text.isBlank c = true) ∧ g' = g := by
  simp only [frameworkHint, Pattern.all, Pattern.blanks, Pattern.takes_seq_edge, Pattern.plain_anyText.takes_seq,
    Pattern.plain_many.takes_seq, Pattern.takes_text]
  refine and_congr_right fun _ => ⟨?_, ?_⟩
  · rintro ⟨word, _, rfl, hword, b, _, rfl, hb, rfl, hg⟩
    exact ⟨word, b, rfl, hword, hb, hg⟩
  · rintro ⟨word, b, rfl, hword, hb, hg⟩
    exact ⟨word, _, rfl, hword, b, _, rfl, hb, rfl, hg⟩

/-- A hint in a written object stands in one of its strings. -/
theorem shown_of_hint_dump {t : Text} (hproper : Proper maxNesting (.object ms))
    (hshown : ∀ s ∈ memberStrings ms, Shown t s) (h : frameworkHint.occursIn (dump ms) = true) :
    frameworkHint.occursIn t = true := by
  obtain ⟨a, w, z, g, hsplit, htakes⟩ := Pattern.occursIn_iff.1 h
  obtain ⟨hedge, word, b, rfl, ⟨hint, hhint, rfl⟩, hb, rfl⟩ := takes_frameworkHint.1 htakes
  have hwords : ∀ hint ∈ hintWords, hint.toList ≠ [] ∧ hint.toList.head? ≠ some '\x7b' ∧ '"' ∉ hint.toList ∧
      ∃ d ∈ ['o', 'm', 'c'], d ∈ hint.toList := by decide
  have htokens : ∀ d ∈ ['o', 'm', 'c'], Json.isToken d = false := by decide
  obtain ⟨hne, hhead, hquote, d, hletter, hd⟩ := hwords hint hhint
  have htoken := htokens d hletter
  obtain ⟨x, word, hcons⟩ := List.exists_cons_of_ne_nil hne
  have hfree : '"' ∉ hint.toList ++ (b ++ [':']) := by
    simp only [List.mem_append, not_or]
    exact ⟨hquote, fun hmem => absurd (hb _ hmem) (by decide), by decide⟩
  -- The hint does not begin the text, so a character stands in front of it.
  obtain ⟨t', ht'⟩ := head_dump ms
  rcases List.eq_nil_or_concat a with rfl | ⟨a, c, rfl⟩
  · rw [ht', hcons, List.nil_append, List.append_assoc, List.cons_append] at hsplit
    exact absurd (by rw [hcons, (List.cons.inj hsplit).1]; rfl) hhead
  · have hin : c :: (hint.toList ++ (b ++ [':'])) <:+: dump ms := ⟨a, z, by rw [hsplit]; simp⟩
    obtain ⟨s, hs, a', z', hstring⟩ :=
      Json.exists_string_of_infix htoken hproper.fits hfree (List.mem_append_left _ hd) hin
    refine (hshown s hs).hint (Pattern.occursIn_iff.2 ⟨a' ++ [c], hint.toList ++ (b ++ [':']), z', [], ?_, ?_⟩)
    · rw [← hstring]
      simp
    · refine takes_frameworkHint.2 ⟨?_, hint.toList, b, rfl, ⟨hint, hhint, rfl⟩, hb, rfl⟩
      rw [hcons] at hedge ⊢
      simpa using hedge

/-! ### Two runs of the pass -/

theorem sniff_eq_compiler {t : Text} (hobject : ((Text.trimLeft t).head? == some '\x7b') = true)
    (hword : "compilerOptions".toList <:+: t) : sniff t = some .compiler := by
  unfold sniff
  dsimp only
  rw [hobject, (Text.occursIn_iff _ _).2 hword]
  rfl

theorem sniff_eq_manifest_iff {t : Text} : sniff t = some .manifest ↔
    ((Text.trimLeft t).head? == some '\x7b') = true ∧ ¬ "compilerOptions".toList <:+: t ∧ ¬ "nextConfig".toList <:+: t ∧
      ¬ ("module.exports".toList <:+: t ∧ frameworkHint.occursIn t = true) ∧ "\"scripts\"".toList <:+: t := by
  simp only [← Text.occursIn_iff]
  unfold sniff
  dsimp only
  generalize ((Text.trimLeft t).head? == some '\x7b') = b₁, Text.occursIn "compilerOptions".toList t = b₂,
    Text.occursIn "nextConfig".toList t = b₃, Text.occursIn "module.exports".toList t = b₄,
    frameworkHint.occursIn t = b₅, Text.occursIn "\"scripts\"".toList t = b₆
  revert b₁ b₂ b₃ b₄ b₅ b₆
  decide

theorem sniff_frameworkTemplate : sniff frameworkTemplate = some .framework := by
  obtain ⟨t, ht⟩ : ∃ t, frameworkTemplate = '/' :: t := by
    unfold frameworkTemplate
    simp only [String.toList_append]
    exact ⟨_, rfl⟩
  have hword : "nextConfig".toList <:+: frameworkTemplate := by
    have hlast : "nextConfig".toList <:+: "module.exports = nextConfig".toList := (Text.occursIn_iff _ _).1 (by decide)
    unfold frameworkTemplate
    rw [String.toList_append]
    exact hlast.trans (List.suffix_append _ _).isInfix
  have hkind : ((Text.trimLeft frameworkTemplate).head? == some '\x7b') = false := by
    rw [ht]
    rfl
  unfold sniff
  dsimp only
  rw [hkind, (Text.occursIn_iff _ _).2 hword]
  rfl

theorem apply_framework {t : Text} (hkind : sniff t = some .framework) : apply t = .ok frameworkTemplate := by
  unfold apply
  rw [hkind]

/-- A written compiler configuration is one, and is left as it is. -/
theorem transform_compiler_fixed {t out : Text} (hkind : sniff t = some .compiler) (h : transform t = .ok out) :
    transform out = .ok out := by
  obtain ⟨ms, ms', hparse, hset, rfl⟩ := (transform_compiler_iff hkind).1 h
  have hproper := (fixed_of_fixCompiler hset).proper (Json.proper_of_parse hparse)
  obtain ⟨options, hoptions, -⟩ := fields_fixCompiler hset
  have hword : "compilerOptions".toList <:+: renderString "compilerOptions".toList := (Text.occursIn_iff _ _).1 (by decide)
  have hsame := sniff_eq_compiler (isObject_dump ms') (hword.trans (string_infix_dump (Entries.mem_names_of_get? hoptions)))
  exact (transform_compiler_iff hsame).2 ⟨ms', ms', hproper.parse_render, fixCompiler_fixed hset, rfl⟩

/-- A written manifest is one, if its strings show nothing that the text does not show. -/
theorem sniff_dump_manifest {t : Text} (hkind : sniff t = some .manifest)
    (hshown : ∀ s ∈ memberStrings ms, Shown t s) (hset : fixManifest ms = .ok ms')
    (hproper : Proper maxNesting (.object ms')) : sniff (dump ms') = some .manifest := by
  obtain ⟨-, hcompiler, hframework, hhint, -⟩ := sniff_eq_manifest_iff.1 hkind
  have hshown' := forall_strings_fixManifest (shown_setStrings t) hshown hset
  have hword {w : Text} (hw : w ∈ signs) (h : w <:+: dump ms') : w <:+: t := shown_of_infix_dump hproper hshown' hw h
  obtain ⟨old, engines, hscripts, -⟩ := fields_fixManifest hset
  refine sniff_eq_manifest_iff.2 ⟨isObject_dump ms', fun h => ?_, fun h => ?_, fun h => ?_, ?_⟩
  · exact hcompiler (hword (by decide) h)
  · exact hframework (hword (by decide) h)
  · exact hhint ⟨hword (by decide) h.1, shown_of_hint_dump hproper hshown' h.2⟩
  · have hname : "\"scripts\"".toList = renderString "scripts".toList := by decide
    rw [hname]
    exact string_infix_dump (Entries.mem_names_of_get? hscripts)

/-- **What the pass gives it gives again**, unless a string of a manifest hides the sign of another kind: something that
the text does not show, and the string shows when it is written. -/
theorem transform_settles {t out : Text} (h : transform t = .ok out)
    (hshown : ∀ ms, sniff t = some .manifest → Json.parse t = .ok (.object ms) → ∀ s ∈ memberStrings ms, Shown t s) :
    transform out = .ok out := by
  rcases hkind : sniff t with _ | kind
  · have happly := transform_eq_ok.1 h
    unfold apply at happly
    rw [hkind] at happly
    obtain rfl := Except.ok.inj happly
    exact h
  · cases kind with
    | compiler => exact transform_compiler_fixed hkind h
    | framework =>
      obtain rfl := Except.ok.inj ((apply_framework hkind).symm.trans (transform_eq_ok.1 h))
      exact transform_eq_ok.2 (apply_framework sniff_frameworkTemplate)
    | manifest =>
      obtain ⟨ms, ms', hparse, hset, rfl⟩ := (transform_manifest_iff hkind).1 h
      have hproper := (fixed_of_fixManifest hset).proper (Json.proper_of_parse hparse)
      have hsame := sniff_dump_manifest hkind (hshown ms hkind hparse) hset hproper
      exact (transform_manifest_iff hsame).2 ⟨ms', ms', hproper.parse_render, fixManifest_fixed hset, rfl⟩

theorem transform_settles_smallManifest : ∃ out, transform (dump smallManifest) = .ok out ∧
    (∀ ms, sniff (dump smallManifest) = some .manifest → Json.parse (dump smallManifest) = .ok (.object ms) →
      ∀ s ∈ memberStrings ms, Shown (dump smallManifest) s) ∧ transform out = .ok out := by
  have hproper : Proper maxNesting (.object smallManifest) := by
    refine .object (by decide) (List.forall_mem_cons.2 ⟨.text _, List.forall_mem_singleton.2 ?_⟩)
    exact .object List.nodup_nil (by simp)
  have hkind : sniff (dump smallManifest) = some .manifest := by decide +kernel
  have hset : ∃ ms', fixManifest smallManifest = .ok ms' := ⟨_, rfl⟩
  obtain ⟨ms', hset⟩ := hset
  have hok : transform (dump smallManifest) = .ok (dump ms') := by
    have hfix : fixObject "package manifest" fixManifest (dump smallManifest) = .ok (dump ms') :=
      fixObject_eq_ok.2 ⟨smallManifest, ms', hproper.parse_render, hset, rfl⟩
    unfold transform apply
    rw [hkind]
    exact congrArg (Except.mapError ConfigError.failure) hfix
  have hword : ∀ s ∈ memberStrings smallManifest, ∀ w ∈ signs, Text.occursIn w (renderString s) = false := by
    decide
  have hhint : ∀ s ∈ memberStrings smallManifest, frameworkHint.occursIn (renderString s) = false := by decide
  have hshown : ∀ ms, sniff (dump smallManifest) = some .manifest → Json.parse (dump smallManifest) = .ok (.object ms) →
      ∀ s ∈ memberStrings ms, Shown (dump smallManifest) s := by
    intro ms _ hparse s hs
    rw [dump, hproper.parse_render] at hparse
    obtain rfl := Json.object.inj (Except.ok.inj hparse)
    refine ⟨fun w hw hin => ?_, fun h => ?_⟩
    · rw [← Text.occursIn_iff, hword s hs w hw] at hin
      cases hin
    · rw [hhint s hs] at h
      cases h
  exact ⟨_, hok, hshown, transform_settles hok hshown⟩

/-- A manifest with an escape that hides the word for a compiler configuration. -/
def hidingManifest : Text := "\x7b\"scripts\": \x7b\x7d, \"note\": \"compiler\\u004fptions\"\x7d".toList

/-- **A manifest may become a compiler configuration**: when the escape has been written as a letter, the file is taken
for another kind. -/
theorem transform_changes_again :
    ∃ y z, transform hidingManifest = .ok y ∧ transform y = .ok z ∧ z ≠ y := by
  generalize hy : dump [("scripts".toList, .object scripts), ("note".toList, .str "compilerOptions"),
    ("engines".toList, .object [("node".toList, nodeVersion)])] = y
  have hfirst : transform hidingManifest = .ok y := hy ▸ by decide +kernel
  have hlong : (transform y).map (fun z => decide (y.length < z.length)) = .ok true := hy ▸ by decide +kernel
  cases hz : transform y with
  | error e =>
    rw [hz] at hlong
    cases hlong
  | ok z =>
    rw [hz] at hlong
    refine ⟨y, z, hfirst, hz, fun heq => ?_⟩
    rw [heq] at hlong
    simp [Except.map] at hlong

end LayeredFix.Pass.Config
