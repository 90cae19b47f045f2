import LayeredFix.Check.Validator
import LayeredFix.Proofs.Text.Part
import LayeredFix.Proofs.Text.Reading

/-!
# The shapes of damage

Each kind of damage has a shape that can be described without saying how it is searched for: some parts, one after another,
with what stands around them. `occursIn_iff_shape` says that the patterns find just these shapes, and so the report on a text
names a kind of damage just where its shape is found (`damaged_mem_errors_iff`).
-/

namespace LayeredFix.Check

open Pattern

/-- Only blanks. -/
def AllBlank (t : Text) : Prop := ∀ c ∈ t, Text.isBlank c = true

/-- A word begins or ends between the texts `a` and `b`: one of the characters next to the cut is a word character, and the
other one is not or is missing. -/
def AtEdge (a b : Text) : Prop := a.getLast?.any Text.isWord ≠ b.head?.any Text.isWord

/-- The word `import` and an opening brace. -/
def IsImportOpening (w : Text) : Prop := ∃ b, AllBlank b ∧ w = "import".toList ++ (b ++ "\x7b".toList)

/-- The words `export default`. -/
def IsDefaultPhrase (w : Text) : Prop :=
  ∃ b, b ≠ [] ∧ AllBlank b ∧ w = "export".toList ++ (b ++ "default".toList)

/-- The word `function` and a name. -/
def IsFunctionName (w : Text) : Prop :=
  ∃ b n, (b ≠ [] ∧ AllBlank b) ∧ (n ≠ [] ∧ ∀ c ∈ n, Text.isWord c = true) ∧ w = "function".toList ++ (b ++ n)

/-- The name of a tag. -/
def IsTagName (n : Text) : Prop :=
  ∃ c u, c.isAlpha = true ∧ (∀ d ∈ u, (Text.isWord d || d == '.') = true) ∧ n = [c] ++ u

/-- The attributes of a tag: nothing, or a blank and what has no angle brackets. -/
def IsAttributes (w : Text) : Prop :=
  (∃ c u, Text.isBlank c = true ∧ (∀ d ∈ u, outsideTag d = true) ∧ w = [c] ++ u) ∨ w = []

/-- The shape of a kind of damage in a text. -/
def Damage.Shape (t : Text) : Damage → Prop
  | nestedImport => ∃ a w b w' c, IsImportOpening w ∧ AllBlank b ∧ '\n' ∈ b ∧ IsImportOpening w' ∧
      t = a ++ (w ++ (b ++ (w' ++ c)))
  | severalDefaults => ∃ a w m w' c, IsDefaultPhrase w ∧ '\n' ∈ m ∧ IsDefaultPhrase w' ∧
      t = a ++ (w ++ (m ++ (w' ++ c))) ∧
      AtEdge (a ++ w) (m ++ (w' ++ c)) ∧ AtEdge (a ++ (w ++ m)) (w' ++ c) ∧ AtEdge (a ++ (w ++ (m ++ w'))) c
  | nestedFunction => ∃ a w b b' w' c, IsFunctionName w ∧ AllBlank b ∧ AllBlank b' ∧ IsFunctionName w' ∧
      t = a ++ (w ++ (b ++ ("(".toList ++ (b' ++ (w' ++ c)))))
  | wrongClosure => ∃ a n s b m c, IsTagName n ∧ IsAttributes s ∧ ¬ "/".toList <:+ n ++ s ∧ AllBlank b ∧
      (∀ d ∈ m, outsideTag d = true) ∧ (¬ ∃ b', AllBlank b' ∧ m = n ++ b') ∧
      t = a ++ ("<".toList ++ (n ++ (s ++ (">".toList ++ (b ++ ("</".toList ++ (m ++ (">".toList ++ c))))))))

variable {a t w rest : Text} {g g' : List (Nat × Text)}

/-! ### Imports and functions -/

theorem plain_importOpening : Plain importOpening IsImportOpening := by
  intro behind g w rest g'
  constructor
  · intro h
    obtain ⟨w₁, rfl, h₁⟩ := takes_seq_text.1 h
    obtain ⟨b, w₂, rfl, hb, rfl, rfl⟩ := plain_many.takes_seq.1 h₁
    exact ⟨⟨b, hb, rfl⟩, rfl⟩
  · rintro ⟨⟨b, hb, rfl⟩, rfl⟩
    exact takes_seq_text.2 ⟨_, rfl, plain_many.takes_seq.2 ⟨b, _, rfl, hb, rfl, rfl⟩⟩

theorem plain_functionName : Plain functionName IsFunctionName := by
  intro behind g w rest g'
  constructor
  · intro h
    obtain ⟨w₁, rfl, h₁⟩ := takes_seq_text.1 h
    obtain ⟨b, n, rfl, hb, h₂⟩ := plain_some1.takes_seq.1 h₁
    obtain ⟨hn, rfl⟩ := takes_some1.1 h₂
    exact ⟨⟨b, n, hb, hn, rfl⟩, rfl⟩
  · rintro ⟨⟨b, n, hb, hn, rfl⟩, rfl⟩
    exact takes_seq_text.2 ⟨_, rfl, plain_some1.takes_seq.2 ⟨b, n, rfl, hb, takes_some1.2 ⟨hn, rfl⟩⟩⟩

theorem occursIn_nestedImport_iff : nestedImport.occursIn t = true ↔ Damage.nestedImport.Shape t := by
  rw [occursIn_iff]
  constructor
  · rintro ⟨a, w, c, g, rfl, h⟩
    obtain ⟨o, w₁, rfl, ho, h₁⟩ := plain_importOpening.takes_seq.1 h
    obtain ⟨b, w₂, rfl, hb, h₂⟩ := plain_many.takes_seq.1 h₁
    obtain ⟨w₃, rfl, h₃⟩ := takes_seq_text.1 h₂
    obtain ⟨b', o', rfl, hb', h₄⟩ := plain_many.takes_seq.1 h₃
    obtain ⟨ho', -⟩ := (plain_importOpening ..).1 h₄
    refine ⟨a, o, b ++ ('\n' :: b'), o', c, ho, ?_, by simp, ho', ?_⟩
    · exact List.forall_mem_append.2 ⟨hb, List.forall_mem_cons.2 ⟨rfl, hb'⟩⟩
    · simp only [List.append_assoc, List.cons_append]
      rfl
  · rintro ⟨a, o, b, o', c, ho, hb, hnl, ho', rfl⟩
    obtain ⟨b₁, b₂, rfl⟩ := List.append_of_mem hnl
    obtain ⟨hb₁, hb₂⟩ := List.forall_mem_append.1 hb
    refine ⟨a, o ++ (b₁ ++ ("\n".toList ++ (b₂ ++ o'))), c, [], ?_, plain_importOpening.takes_seq.2 ⟨o, _, rfl, ho, ?_⟩⟩
    · simp only [List.append_assoc, List.cons_append]
      rfl
    · refine plain_many.takes_seq.2 ⟨b₁, _, rfl, hb₁, takes_seq_text.2 ⟨_, rfl, ?_⟩⟩
      exact plain_many.takes_seq.2 ⟨b₂, o', rfl, (List.forall_mem_cons.1 hb₂).2, (plain_importOpening ..).2 ⟨ho', rfl⟩⟩

theorem occursIn_nestedFunction_iff : nestedFunction.occursIn t = true ↔ Damage.nestedFunction.Shape t := by
  rw [occursIn_iff]
  constructor
  · rintro ⟨a, w, c, g, rfl, h⟩
    obtain ⟨f, w₁, rfl, hf, h₁⟩ := plain_functionName.takes_seq.1 h
    obtain ⟨b, w₂, rfl, hb, h₂⟩ := plain_many.takes_seq.1 h₁
    obtain ⟨w₃, rfl, h₃⟩ := takes_seq_text.1 h₂
    obtain ⟨b', f', rfl, hb', h₄⟩ := plain_many.takes_seq.1 h₃
    obtain ⟨hf', -⟩ := (plain_functionName ..).1 h₄
    exact ⟨a, f, b, b', f', c, hf, hb, hb', hf', by simp only [List.append_assoc]⟩
  · rintro ⟨a, f, b, b', f', c, hf, hb, hb', hf', rfl⟩
    refine ⟨a, f ++ (b ++ ("(".toList ++ (b' ++ f'))), c, [], by simp only [List.append_assoc], ?_⟩
    refine plain_functionName.takes_seq.2 ⟨f, _, rfl, hf, plain_many.takes_seq.2 ⟨b, _, rfl, hb, ?_⟩⟩
    refine takes_seq_text.2 ⟨_, rfl, plain_many.takes_seq.2 ⟨b', f', rfl, hb', (plain_functionName ..).2 ⟨hf', rfl⟩⟩⟩

/-! ### Default exports -/

/-- What is next to a place. -/
theorem atEdge_iff : AtEdge a t ↔ a.reverse.head?.any Text.isWord ≠ t.head?.any Text.isWord := by
  rw [List.head?_reverse]
  rfl

theorem takes_defaultExport :
    defaultExport.Takes a.reverse g w rest g' ↔ (IsDefaultPhrase w ∧ AtEdge (a ++ w) rest) ∧ g' = g := by
  constructor
  · intro h
    obtain ⟨w₁, rfl, h₁⟩ := takes_seq_text.1 h
    obtain ⟨b, w₂, rfl, ⟨hne, hb⟩, h₂⟩ := plain_some1.takes_seq.1 h₁
    obtain ⟨w₃, rfl, ⟨hedge, rfl⟩, rfl⟩ := takes_seq_text.1 h₂
    refine ⟨⟨⟨b, hne, hb, by rw [List.append_nil]⟩, atEdge_iff.2 ?_⟩, rfl⟩
    simpa only [List.reverse_append, List.append_nil, List.append_assoc] using hedge
  · rintro ⟨⟨⟨b, hne, hb, rfl⟩, hedge⟩, rfl⟩
    refine takes_seq_text.2 ⟨_, rfl, plain_some1.takes_seq.2 ⟨b, _, rfl, ⟨hne, hb⟩, ?_⟩⟩
    refine takes_seq_text.2 ⟨[], (List.append_nil _).symm, ⟨?_, rfl⟩, rfl⟩
    have hedge := atEdge_iff.1 hedge
    simpa only [List.reverse_append, List.append_assoc] using hedge

theorem occursIn_severalDefaults_iff : severalDefaults.occursIn t = true ↔ Damage.severalDefaults.Shape t := by
  rw [occursIn_iff]
  constructor
  · rintro ⟨a, w, c, g, rfl, o, w₁, g₁, rfl, h, h₁⟩
    obtain ⟨⟨ho, hedge⟩, rfl⟩ := takes_defaultExport.1 h
    obtain ⟨l, w₂, rfl, -, h₂⟩ := plain_many.takes_seq.1 h₁
    obtain ⟨w₃, rfl, h₃⟩ := takes_seq_text.1 h₂
    obtain ⟨m, w₄, rfl, -, h₄⟩ := plain_few.takes_seq.1 h₃
    obtain ⟨hbegin, h₅⟩ := takes_seq_edge.1 h₄
    have hbehind : m.reverse ++ ("\n".toList.reverse ++ (l.reverse ++ (o.reverse ++ a.reverse))) =
        (a ++ (o ++ (l ++ ("\n".toList ++ m)))).reverse := by
      simp only [List.reverse_append, List.append_assoc]
    rw [hbehind] at hbegin h₅
    obtain ⟨⟨ho', hedge'⟩, -⟩ := takes_defaultExport.1 h₅
    refine ⟨a, o, l ++ ("\n".toList ++ m), w₄, c, ho, ?_, ho', ?_, ?_, atEdge_iff.2 hbegin, ?_⟩
    · exact List.mem_append_right _ (List.mem_cons_self ..)
    · simp only [List.append_assoc]
    · simpa only [List.append_assoc] using hedge
    · simpa only [List.append_assoc] using hedge'
  · rintro ⟨a, o, m, o', c, ho, hnl, ho', rfl, hedge, hbegin, hedge'⟩
    obtain ⟨l, m, rfl, hl⟩ := List.eq_append_cons_of_mem hnl
    have hbehind : m.reverse ++ ("\n".toList.reverse ++ (l.reverse ++ (o.reverse ++ a.reverse))) =
        (a ++ (o ++ (l ++ '\n' :: m))).reverse := by
      simp only [List.reverse_append, List.append_assoc, List.reverse_cons]
      rfl
    refine ⟨a, o ++ (l ++ ("\n".toList ++ (m ++ o'))), c, [], ?_, o, _, [], rfl, takes_defaultExport.2 ⟨⟨ho, ?_⟩, rfl⟩, ?_⟩
    · simp only [List.append_assoc, List.cons_append]
      rfl
    · simp only [List.append_assoc, List.cons_append] at hedge ⊢
      exact hedge
    · have hline : ∀ d ∈ l, (d != '\n') = true := fun d hd => bne_iff_ne.2 fun heq => hl (heq ▸ hd)
      refine plain_many.takes_seq.2 ⟨l, _, rfl, hline, takes_seq_text.2 ⟨_, rfl, ?_⟩⟩
      refine plain_few.takes_seq.2 ⟨m, o', rfl, fun _ _ => rfl, takes_seq_edge.2 ?_⟩
      rw [hbehind]
      refine ⟨atEdge_iff.1 hbegin, takes_defaultExport.2 ⟨⟨ho', ?_⟩, rfl⟩⟩
      simpa only [List.append_assoc] using hedge'

/-! ### Tags -/

theorem plain_tagName : Plain tagName IsTagName := by
  intro behind g w rest g'
  refine (plain_one.seq plain_many behind g w rest g').trans (and_congr_left fun _ => ?_)
  constructor
  · rintro ⟨_, u, rfl, ⟨c, rfl, hc⟩, hu⟩
    exact ⟨c, u, hc, hu, rfl⟩
  · rintro ⟨c, u, hc, hu, rfl⟩
    exact ⟨[c], u, rfl, ⟨c, rfl, hc⟩, hu⟩

theorem plain_attributes : Plain (optional (.seq (.one Text.isBlank) (.many outsideTag))) IsAttributes := by
  intro behind g w rest g'
  refine ((plain_one.seq plain_many).optional behind g w rest g').trans (and_congr_left fun _ => or_congr_left ?_)
  constructor
  · rintro ⟨_, u, rfl, ⟨c, rfl, hc⟩, hu⟩
    exact ⟨c, u, hc, hu, rfl⟩
  · rintro ⟨c, u, hc, hu, rfl⟩
    exact ⟨[c], u, rfl, ⟨c, rfl, hc⟩, hu⟩

theorem notMem_of_isTagName {n : Text} (h : IsTagName n) : '>' ∉ n := by
  obtain ⟨c, u, hc, hu, rfl⟩ := h
  rintro (_ | ⟨_, hmem⟩)
  · exact absurd hc (by decide)
  · exact absurd (hu '>' hmem) (by decide)

/-- What closes a tag of the name that was noted. -/
def closesNoted : Pattern := .all [.again 1, .blanks, .text ">"]

theorem takes_closesNoted {behind n : Text} : closesNoted.Takes behind [(1, n)] w rest g' ↔
    (∃ b, AllBlank b ∧ w = n ++ (b ++ ">".toList)) ∧ g' = [(1, n)] := by
  constructor
  · intro h
    obtain ⟨u, w₁, rfl, hu, h₁⟩ := takes_seq_again.1 h
    obtain rfl : n = u := Option.some.inj hu
    obtain ⟨b, w₂, rfl, hb, rfl, rfl⟩ := plain_many.takes_seq.1 h₁
    exact ⟨⟨b, hb, rfl⟩, rfl⟩
  · rintro ⟨⟨b, hb, rfl⟩, rfl⟩
    exact takes_seq_again.2 ⟨n, _, rfl, rfl, plain_many.takes_seq.2 ⟨b, _, rfl, hb, rfl, rfl⟩⟩

/-- A closing tag closes the noted tag if it holds its name and otherwise only blanks. -/
theorem closesNoted_iff {behind n m c : Text} (hn : IsTagName n) (hm : ∀ d ∈ m, outsideTag d = true) :
    (∃ u v g', m ++ (">".toList ++ c) = u ++ v ∧ closesNoted.Takes behind [(1, n)] u v g') ↔
      ∃ b, AllBlank b ∧ m = n ++ b := by
  constructor
  · rintro ⟨u, v, g', hcut, h⟩
    obtain ⟨⟨b, hb, rfl⟩, -⟩ := takes_closesNoted.1 h
    have hwhole : m ++ '>' :: c = (n ++ b) ++ '>' :: v := by
      rw [List.append_assoc n, List.append_assoc b, ← List.append_assoc n] at hcut
      exact hcut
    refine ⟨b, hb, (Text.cut_unique hwhole ?_ ?_).1⟩
    · exact fun hmem => absurd (hm '>' hmem) (by decide)
    · rw [List.mem_append, not_or]
      exact ⟨notMem_of_isTagName hn, fun hmem => absurd (hb '>' hmem) (by decide)⟩
  · rintro ⟨b, hb, rfl⟩
    exact ⟨_, c, _, by simp only [List.append_assoc], takes_closesNoted.2 ⟨⟨b, hb, rfl⟩, rfl⟩⟩

/-- A slash in front of a place behind the name of a tag stands in the tag. -/
theorem prefix_behind_iff {n s : Text} (hn : IsTagName n) (a : Text) :
    ['/'].reverse <+: s.reverse ++ (n.reverse ++ a) ↔ "/".toList <:+ n ++ s := by
  have hne : (n ++ s).reverse ≠ [] := by
    obtain ⟨c, u, -, -, rfl⟩ := hn
    exact List.reverse_ne_nil_iff.2 (List.cons_ne_nil c (u ++ s))
  obtain ⟨d, v, hlast⟩ := List.exists_cons_of_ne_nil hne
  rw [← List.append_assoc, ← List.reverse_append, ← List.reverse_prefix, hlast, List.cons_append]
  have hslash {r : Text} : ['/'] <+: d :: r ↔ '/' = d := List.cons_prefix_cons.trans (and_iff_left List.nil_prefix)
  exact hslash.trans hslash.symm

theorem occursIn_wrongClosure_iff : wrongClosure.occursIn t = true ↔ Damage.wrongClosure.Shape t := by
  rw [occursIn_iff]
  constructor
  · rintro ⟨a, w, c, g, rfl, h⟩
    obtain ⟨w₁, rfl, h₁⟩ := takes_seq_text.1 h
    obtain ⟨n, w₂, rfl, hn, h₂⟩ := plain_tagName.takes_seq_group.1 h₁
    obtain ⟨s, w₃, rfl, hs, h₃⟩ := plain_attributes.takes_seq.1 h₂
    obtain ⟨hopen, h₄⟩ := takes_seq_notAfter.1 h₃
    obtain ⟨w₄, rfl, h₅⟩ := takes_seq_text.1 h₄
    obtain ⟨b, w₅, rfl, hb, h₆⟩ := plain_many.takes_seq.1 h₅
    obtain ⟨w₆, rfl, h₇⟩ := takes_seq_text.1 h₆
    obtain ⟨hother, h₈⟩ := takes_seq_notFollowedBy.1 h₇
    obtain ⟨m, w₇, rfl, hm, rfl, -⟩ := plain_many.takes_seq.1 h₈
    rw [List.append_assoc] at hother
    refine ⟨a, n, s, b, m, c, hn, hs, ?_, hb, hm, ?_, ?_⟩
    · rwa [← prefix_behind_iff hn]
    · rwa [← closesNoted_iff hn hm]
    · simp only [List.append_assoc]
  · rintro ⟨a, n, s, b, m, c, hn, hs, hopen, hb, hm, hother, rfl⟩
    refine ⟨a, _, c, [(1, n)], ?_, takes_seq_text.2 ⟨n ++ (s ++ (">".toList ++ (b ++ ("</".toList ++ (m ++ ">".toList))))),
      rfl, plain_tagName.takes_seq_group.2 ⟨n, _, rfl, hn, plain_attributes.takes_seq.2 ⟨s, _, rfl, hs, ?_⟩⟩⟩⟩
    · simp only [List.append_assoc]
    · refine takes_seq_notAfter.2 ⟨by rwa [prefix_behind_iff hn], takes_seq_text.2 ⟨_, rfl, ?_⟩⟩
      refine plain_many.takes_seq.2 ⟨b, _, rfl, hb, takes_seq_text.2 ⟨_, rfl, takes_seq_notFollowedBy.2 ⟨?_, ?_⟩⟩⟩
      · rw [List.append_assoc]
        rwa [← closesNoted_iff hn hm] at hother
      · exact plain_many.takes_seq.2 ⟨m, _, rfl, hm, rfl, rfl⟩

/-- **The patterns find the shapes of damage.** -/
theorem occursIn_iff_shape (d : Damage) : d.pattern.occursIn t = true ↔ d.Shape t := by
  cases d with
  | nestedImport => exact occursIn_nestedImport_iff
  | severalDefaults => exact occursIn_severalDefaults_iff
  | nestedFunction => exact occursIn_nestedFunction_iff
  | wrongClosure => exact occursIn_wrongClosure_iff

/-! ### Reports -/

theorem Damage.mem_all (d : Damage) : d ∈ Damage.all := by cases d <;> decide

theorem Fault.message_damaged_injective {d d' : Damage} (h : (Fault.damaged d).message = (Fault.damaged d').message) :
    d = d' := by
  have hall : ∀ d ∈ Damage.all, ∀ d' ∈ Damage.all, (Fault.damaged d).message = (Fault.damaged d').message → d = d' := by
    decide
  exact hall d d.mem_all d' d'.mem_all h

/-- The wording for too many lines is not that for damage. -/
theorem Fault.message_tooManyLines_ne (n : Nat) (most : Int) (d : Damage) :
    (Fault.tooManyLines n most).message ≠ (Fault.damaged d).message := by
  intro h
  have hbegin : "Code too large: ".toList <+: (Fault.tooManyLines n most).message := by
    show _ <+: ("Code too large: " ++ toString n ++ " lines exceeds maximum of " ++ toString most).toList
    rw [String.toList_append, String.toList_append, String.toList_append, List.append_assoc, List.append_assoc]
    exact List.prefix_append _ _
  have hno : ∀ d ∈ Damage.all, ¬ "Code too large: ".toList <+: (Fault.damaged d).message := by decide
  exact hno d d.mem_all (h ▸ hbegin)

theorem mem_damageIn_iff {d : Damage} : d ∈ damageIn t ↔ d.Shape t := by
  rw [damageIn, List.mem_filter, occursIn_iff_shape]
  exact and_iff_right d.mem_all

theorem damaged_mem_faultsOf_iff {limits : Limits} {d : Damage} :
    (Fault.damaged d).message ∈ (faultsOf limits true t).map Fault.message ↔ d ∈ damageIn t := by
  have hdamaged : Fault.damaged d ∈ faultsOf limits true t ↔ d ∈ damageIn t := by
    rw [faultsOf, if_pos rfl, List.mem_append, List.mem_map]
    constructor
    · rintro (h | ⟨d', hd, heq⟩)
      · split at h
        · exact Fault.noConfusion (List.mem_singleton.1 h)
        · cases h
      · exact Fault.damaged.inj heq ▸ hd
    · exact fun h => Or.inr ⟨d, h, rfl⟩
  rw [← hdamaged, List.mem_map]
  constructor
  · rintro ⟨f, hf, heq⟩
    cases f with
    | tooManyLines n most => exact absurd heq (Fault.message_tooManyLines_ne n most d)
    | damaged d' => exact Fault.message_damaged_injective heq ▸ hf
  · exact fun h => ⟨_, h, rfl⟩

/-- **A report names the damage that is there.** On every text that is not empty, and whatever the limits, the errors name a
kind of damage just if its shape is found in the text, and the text counts as corrupt just if one of the kinds is named. -/
theorem damaged_mem_errors_iff (limits : Limits) (ht : t ≠ []) :
    (∀ d, (Fault.damaged d).message ∈ ((Validator.ofLimits limits).report t).errors ↔ d.Shape t) ∧
    (((Validator.ofLimits limits).report t).corrupt = true ↔
      ∃ d, (Fault.damaged d).message ∈ ((Validator.ofLimits limits).report t).errors) := by
  have hempty : ¬ t.isEmpty = true := fun h => ht (List.isEmpty_iff.1 h)
  have herrors : ((Validator.ofLimits limits).report t).errors = (faultsOf limits true t).map Fault.message := by
    show (limits.inspect true t).errors = _
    rw [Limits.inspect, if_neg hempty]
  have hcorrupt : ((Validator.ofLimits limits).report t).corrupt = !(damageIn t).isEmpty := by
    show (limits.inspect true t).corrupt = _
    rw [Limits.inspect, if_neg hempty, Bool.true_and]
  rw [herrors, hcorrupt]
  refine ⟨fun d => damaged_mem_faultsOf_iff.trans mem_damageIn_iff, ?_⟩
  rw [exists_congr fun d => damaged_mem_faultsOf_iff, Bool.not_eq_true', List.isEmpty_eq_false_iff_exists_mem]

/-- A tag that is closed by a tag of another name. -/
theorem damaged_mem_errors_otherName :
    "<a></b>".toList ≠ [] ∧
    (Fault.damaged .wrongClosure).message ∈ ((Validator.ofLimits {}).report "<a></b>".toList).errors ∧
    ((Validator.ofLimits {}).report "<a></b>".toList).corrupt = true := by
  have hne : "<a></b>".toList ≠ [] := by decide
  obtain ⟨herrors, hcorrupt⟩ := damaged_mem_errors_iff {} hne
  have hshape : Damage.wrongClosure.Shape "<a></b>".toList := by
    refine ⟨[], ['a'], [], [], ['b'], [], ⟨'a', [], by decide, by decide, rfl⟩, Or.inr rfl, by decide, by simp [AllBlank],
      by decide, ?_, rfl⟩
    rintro ⟨b, -, h⟩
    exact absurd (List.cons.inj h).1 (by decide)
  have hnamed := (herrors .wrongClosure).2 hshape
  exact ⟨hne, hnamed, hcorrupt.2 ⟨_, hnamed⟩⟩

end LayeredFix.Check
