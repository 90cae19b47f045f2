import LayeredFix.Proofs.Convention.Marks

/-!
# Import blocks and repeated imports

The pass over imports leaves a text alone if no import block is left open in it and no import is repeated
(`fixCorruptedImports_of`). The passes after it open no block and repeat no import: what they put in front begins no
import, and a short name is part of none.
-/

namespace LayeredFix.Pass.Convention

open Pattern
open Component (isQuote)

/-! ### Open import blocks -/

/-- A text begins with an import block that is left open before another one begins. -/
inductive Nests : Text → Prop where
  /-- The two blocks. -/
  | intro {b₁ b₂ b₃ b₄ names b₅ b₆ source rest : Text} {q q' : Char}
      (hblank : ∀ b ∈ [b₁, b₂, b₃, b₄, b₅, b₆], ∀ c ∈ b, Text.isBlank c = true)
      (hnames : names ≠ [] ∧ ∀ c ∈ names, (c != '\x7d') = true) (hq : isQuote q = true)
      (hsource : source ≠ [] ∧ ∀ c ∈ source, (!isQuote c) = true) (hq' : isQuote q' = true) :
      Nests (("import".toList ++ b₁) ++ '\x7b' :: (b₂ ++ '\n' :: ((b₃ ++ ("import".toList ++ b₄)) ++ '\x7b' ::
        (names ++ '\x7d' :: ((b₅ ++ ("from".toList ++ b₆)) ++ q :: (source ++ q' :: rest))))))

/-- A text begins with an import block that is left open before another import. -/
inductive Dangles : Text → Prop where
  /-- The block and the import. -/
  | intro {b₁ b₂ b₃ rest : Text} (hblank : ∀ b ∈ [b₁, b₂, b₃], ∀ c ∈ b, Text.isBlank c = true) (hrest : EndsName rest) :
      Dangles (("import".toList ++ b₁) ++ '\x7b' :: (b₂ ++ '\n' :: ((b₃ ++ "import".toList) ++ rest)))

/-- The pattern reads the two blocks, and notes the names and the source of the second one. -/
theorem takes_nestedImport {behind w rest : Text} {g : List (Nat × Text)} : nestedImport.Takes behind [] w rest g ↔
    ∃ b₁ b₂ b₃ b₄ names b₅ b₆ source q q', w = ("import".toList ++ b₁) ++ '\x7b' :: (b₂ ++ '\n' ::
        ((b₃ ++ ("import".toList ++ b₄)) ++ '\x7b' :: (names ++ '\x7d' :: ((b₅ ++ ("from".toList ++ b₆)) ++
          q :: (source ++ [q']))))) ∧
      (∀ b ∈ [b₁, b₂, b₃, b₄, b₅, b₆], ∀ c ∈ b, Text.isBlank c = true) ∧
      (names ≠ [] ∧ ∀ c ∈ names, (c != '\x7d') = true) ∧ isQuote q = true ∧
      (source ≠ [] ∧ ∀ c ∈ source, (!isQuote c) = true) ∧ isQuote q' = true ∧ g = [(2, source), (1, names)] := by
  constructor
  · intro h
    obtain ⟨_, rfl, t₁⟩ := takes_seq_text.1 h
    obtain ⟨b₁, _, rfl, h₁, t₂⟩ := plain_many.takes_seq.1 t₁
    obtain ⟨_, rfl, t₃⟩ := takes_seq_text.1 t₂
    obtain ⟨b₂, _, rfl, h₂, t₄⟩ := plain_many.takes_seq.1 t₃
    obtain ⟨_, rfl, t₅⟩ := takes_seq_text.1 t₄
    obtain ⟨b₃, _, rfl, h₃, t₆⟩ := plain_many.takes_seq.1 t₅
    obtain ⟨_, rfl, t₇⟩ := takes_seq_text.1 t₆
    obtain ⟨b₄, _, rfl, h₄, t₈⟩ := plain_many.takes_seq.1 t₇
    obtain ⟨_, rfl, t₉⟩ := takes_seq_text.1 t₈
    obtain ⟨names, _, rfl, hnames, t₁₀⟩ := plain_some1.takes_seq_group.1 t₉
    obtain ⟨_, rfl, t₁₁⟩ := takes_seq_text.1 t₁₀
    obtain ⟨b₅, _, rfl, h₅, t₁₂⟩ := plain_many.takes_seq.1 t₁₁
    obtain ⟨_, rfl, t₁₃⟩ := takes_seq_text.1 t₁₂
    obtain ⟨b₆, _, rfl, h₆, t₁₄⟩ := plain_many.takes_seq.1 t₁₃
    obtain ⟨_, _, rfl, ⟨q, rfl, hq⟩, t₁₅⟩ := plain_one.takes_seq.1 t₁₄
    obtain ⟨source, _, rfl, hsource, ⟨q', rfl, hq'⟩, rfl⟩ := plain_some1.takes_seq_group.1 t₁₅
    exact ⟨b₁, b₂, b₃, b₄, names, b₅, b₆, source, q, q', by simp, by simp only [List.forall_mem_cons]; tauto, hnames, hq,
      hsource, hq', rfl⟩
  · rintro ⟨b₁, b₂, b₃, b₄, names, b₅, b₆, source, q, q', rfl, hblank, hnames, hq, hsource, hq', rfl⟩
    simp only [List.forall_mem_cons] at hblank
    obtain ⟨h₁, h₂, h₃, h₄, h₅, h₆, -⟩ := hblank
    simp only [nestedImport, Pattern.all, takes_seq_text, plain_many.takes_seq, blanks, plain_some1.takes_seq_group,
      plain_one.takes_seq]
    exact ⟨_, by simp, b₁, _, rfl, h₁, _, rfl, b₂, _, rfl, h₂, _, rfl, b₃, _, rfl, h₃, _, rfl, b₄, _, rfl, h₄, _, rfl,
      names, _, rfl, hnames, _, rfl, b₅, _, rfl, h₅, _, rfl, b₆, _, rfl, h₆, [q], _, rfl, ⟨q, rfl, hq⟩, source, _, rfl,
      hsource, ⟨q', rfl, hq'⟩, rfl⟩

theorem hit?_nestedImport_eq_none_iff {behind v : Text} : nestedImport.hit? behind v = none ↔ ¬ Nests v := by
  rw [← not_iff_not, not_not, ← ne_eq, Option.ne_none_iff_exists']
  constructor
  · rintro ⟨h, hh⟩
    obtain ⟨rest, ht, htakes⟩ := takes_of_hit? hh
    obtain ⟨b₁, b₂, b₃, b₄, names, b₅, b₆, source, q, q', htext, hblank, hnames, hq, hsource, hq', -⟩ :=
      takes_nestedImport.1 htakes
    have hv : v = ("import".toList ++ b₁) ++ '\x7b' :: (b₂ ++ '\n' :: ((b₃ ++ ("import".toList ++ b₄)) ++ '\x7b' ::
        (names ++ '\x7d' :: ((b₅ ++ ("from".toList ++ b₆)) ++ q :: (source ++ q' :: rest))))) := by
      rw [ht, htext]
      simp
    rw [hv]
    exact .intro hblank hnames hq hsource hq'
  · rintro ⟨hblank, hnames, hq, hsource, hq'⟩
    rename_i b₁ b₂ b₃ b₄ names b₅ b₆ source rest q q'
    have htakes : nestedImport.Takes behind [] _ rest _ := takes_nestedImport.2 ⟨b₁, b₂, b₃, b₄, names, b₅, b₆, source, q, q',
      rfl, hblank, hnames, hq, hsource, hq', rfl⟩
    obtain ⟨h, hh⟩ := exists_hit? htakes
    refine ⟨h, ?_⟩
    rw [← hh]
    simp

/-- At the beginning of a line the pattern reads the block that is left open, up to the end of a line. -/
theorem takes_danglingImport {behind w rest : Text} {g : List (Nat × Text)} : danglingImport.Takes behind [] w rest g ↔
    behind.head?.all (· == '\n') = true ∧ ∃ b₁ b₂ b₃ rest', w = ("import".toList ++ b₁) ++ '\x7b' :: (b₂ ++ ['\n']) ∧
      rest = (b₃ ++ "import".toList) ++ rest' ∧ (∀ b ∈ [b₁, b₂, b₃], ∀ c ∈ b, Text.isBlank c = true) ∧
      EndsName rest' ∧ g = [] := by
  have hedge {b : Text} {rest : Text} : (("import".toList.reverse ++ b).head?.any Text.isWord ≠ rest.head?.any Text.isWord) ↔
      EndsName rest := by
    have hword : ("import".toList.reverse ++ b).head?.any Text.isWord = true := by
      have hlast : "import".toList.reverse = 't' :: "ropmi".toList := by decide
      have ht : Text.isWord 't' = true := by decide
      rw [hlast]
      exact ht
    rw [hword, ne_comm, ne_eq, Bool.not_eq_true]
    cases rest <;> simp [EndsName]
  simp only [danglingImport, Pattern.all, takes_seq_lineStart, takes_seq_text, plain_many.takes_seq, blanks]
  refine and_congr_right fun _ => ?_
  constructor
  · rintro ⟨_, rfl, b₁, _, rfl, h₁, _, rfl, b₂, _, rfl, h₂, _, rfl, ⟨⟨_, rest', _, rfl, hnext⟩, rfl⟩, rfl⟩
    simp only [plain_many.takes_seq, takes_seq_text] at hnext
    obtain ⟨b₃, _, rfl, h₃, _, rfl, ⟨hend, rfl⟩, -⟩ := hnext
    exact ⟨b₁, b₂, b₃, rest', by simp, by simp, by simp only [List.forall_mem_cons]; tauto, hedge.1 hend, rfl⟩
  · rintro ⟨b₁, b₂, b₃, rest', rfl, rfl, hblank, hrest, rfl⟩
    simp only [List.forall_mem_cons] at hblank
    obtain ⟨h₁, h₂, h₃, -⟩ := hblank
    refine ⟨_, by simp, b₁, _, rfl, h₁, _, rfl, b₂, ['\n'], rfl, h₂, [], rfl, ⟨⟨?_, rfl⟩, rfl⟩⟩
    refine ⟨b₃ ++ ("import".toList ++ []), rest', [], by simp, ?_⟩
    simp only [plain_many.takes_seq, takes_seq_text]
    exact ⟨b₃, _, rfl, h₃, [], rfl, ⟨hedge.2 hrest, rfl⟩, rfl⟩

theorem hit?_danglingImport_eq_none_iff {behind v : Text} :
    danglingImport.hit? behind v = none ↔ (behind.head?.all (· == '\n') = true → ¬ Dangles v) := by
  rw [← not_iff_not, Classical.not_imp, not_not, ← ne_eq, Option.ne_none_iff_exists']
  constructor
  · rintro ⟨h, hh⟩
    obtain ⟨rest, ht, htakes⟩ := takes_of_hit? hh
    obtain ⟨hline, b₁, b₂, b₃, rest', htext, rfl, hblank, hrest, -⟩ := takes_danglingImport.1 htakes
    have hv : v = ("import".toList ++ b₁) ++ '\x7b' :: (b₂ ++ '\n' :: ((b₃ ++ "import".toList) ++ rest')) := by
      rw [ht, htext]
      simp
    refine ⟨hline, ?_⟩
    rw [hv]
    exact .intro hblank hrest
  · rintro ⟨hline, hblank, hrest⟩
    rename_i b₁ b₂ b₃ rest
    obtain ⟨h, hh⟩ := exists_hit? (takes_danglingImport.2 ⟨hline, b₁, b₂, b₃, rest, rfl, rfl, hblank, hrest, rfl⟩)
    refine ⟨h, ?_⟩
    rw [← hh]
    simp

/-! ### Texts in which no import block is left open -/

/-- The place after a text is the beginning of a line. -/
def StartsLine (t : Text) : Prop := t.reverse.head?.all (· == '\n') = true

theorem startsLine_append {a b : Text} (h : StartsLine a) : StartsLine (a ++ b) ↔ StartsLine b := by
  rcases List.eq_nil_or_concat b with rfl | ⟨b, c, rfl⟩
  · simpa [StartsLine] using h
  · simp [StartsLine]

theorem startsLine_iff {t : Text} : StartsLine t ↔ t = [] ∨ ∃ a, t = a ++ ['\n'] := by
  rcases List.eq_nil_or_concat t with rfl | ⟨t, c, rfl⟩
  · simp [StartsLine]
  · simp [StartsLine]

/-- No import block is left open. -/
def Closed (t : Text) : Prop := nestedImport.Absent t ∧ danglingImport.Absent t

theorem closed_iff {t : Text} : Closed t ↔ ∀ u v, t = u ++ v → ¬ Nests v ∧ (StartsLine u → ¬ Dangles v) := by
  simp only [Closed, Absent, hit?_nestedImport_eq_none_iff, hit?_danglingImport_eq_none_iff, ← forall_and]
  rfl

theorem Nests.import_prefix {v : Text} (h : Nests v) : "import".toList <+: v := by
  cases h
  rw [List.append_assoc]
  exact List.prefix_append _ _

theorem Dangles.import_prefix {v : Text} (h : Dangles v) : "import".toList <+: v := by
  cases h
  rw [List.append_assoc]
  exact List.prefix_append _ _

theorem Closed.right {a b : Text} (h : Closed (a ++ b)) (ha : StartsLine a) : Closed b := by
  rw [closed_iff] at h ⊢
  rintro u v rfl
  rw [← startsLine_append ha]
  exact h (a ++ u) v (List.append_assoc ..).symm

/-- A front without imports leaves no import block open. -/
theorem Closed.front {front t : Text} (h : Closed t) (hfront : ¬ "import".toList <:+: front) :
    Closed (front ++ '\n' :: t) := by
  rw [closed_iff] at h ⊢
  intro u v huv
  rcases List.append_eq_append_iff.1 huv with ⟨w, rfl, hw⟩ | ⟨w, rfl, rfl⟩
  · cases w with
    | nil =>
      rw [List.nil_append] at hw
      have hno : ¬ "import".toList <+: v := fun hpre => by
        rw [← hw] at hpre
        exact absurd (List.prefix_nil.1 (Text.prefix_of_notMem (u := []) hpre (by decide))) (by decide)
      exact ⟨fun hn => hno hn.import_prefix, fun _ hd => hno hd.import_prefix⟩
    | cons c w =>
      obtain ⟨rfl, ht⟩ := List.cons.inj hw
      have hline : StartsLine (front ++ ['\n']) := by simp [StartsLine]
      rw [List.append_cons, startsLine_append hline]
      exact h w v ht
  · have hno : ¬ "import".toList <+: w ++ '\n' :: t := fun hpre =>
      hfront ((Text.prefix_of_notMem hpre (by decide)).isInfix.trans (List.suffix_append u w).isInfix)
    exact ⟨fun hn => hno hn.import_prefix, fun _ hd => hno hd.import_prefix⟩

/-! ### Names -/

/-- One of the short names. -/
def IsShort (n : Text) : Prop := n ∈ shortWords.map String.toList

theorem IsShort.isName {n : Text} (h : IsShort n) : IsName n := by
  obtain ⟨word, hword, rfl⟩ := List.mem_map.1 h
  exact isName_of_mem_shortWords hword

/-- A text without the letter `x` has the head of no export. -/
theorem not_infix_exportHead {w : Text} (hw : 'x' ∉ w) : ¬ exportHead <:+: w :=
  fun h => hw (h.subset (by with_unfolding_all decide))

namespace Renaming

variable {P : Text → Prop} {t t' : Text}

theorem startsLine (h : Renaming P IsShort t t') (ht' : StartsLine t') : StartsLine t := by
  rcases startsLine_iff.1 ht' with rfl | ⟨a, rfl⟩
  · rw [h.eq_nil_iff.2 rfl]
    rfl
  · obtain ⟨a', b', rfl, -, hb⟩ := h.split_outside (fun _ => IsShort.isName) (by with_unfolding_all decide : Outside '\n')
    rw [hb.eq_nil_iff.2 rfl]
    simp [StartsLine]

/-- An import that is read after the names have been shortened stood there before. -/
theorem split_import {u' v' : Text} (h : Renaming P IsShort t (u' ++ v')) (hv : "import".toList <+: v') :
    ∃ u v, t = u ++ v ∧ Renaming P IsShort u u' ∧ Renaming P IsShort v v' := by
  rcases h.split with hsplit | ⟨n, y, y', a₀, b₀, hn, hy, -, hne', -, rfl⟩
  · exact hsplit
  · have hall : ∀ n ∈ shortWords.map String.toList, ∀ y' ∈ (exportHead ++ n).tails, y' ≠ [] →
        ¬ y' <+: "import".toList ∧ ¬ "import".toList <+: y' := by with_unfolding_all decide
    have hmem : y' ∈ (exportHead ++ n).tails := by
      rw [List.mem_tails, hy]
      exact List.suffix_append y y'
    obtain ⟨hno, hno'⟩ := hall n hn y' hmem hne'
    rcases List.prefix_or_prefix_of_prefix (List.prefix_append y' b₀) hv with hpre | hpre
    · exact absurd hpre hno
    · exact absurd hpre hno'

theorem notMem_of_forall_isBlank {b : Text} (hb : ∀ c ∈ b, Text.isBlank c = true) : 'x' ∉ b := fun hmem =>
  absurd (hb 'x' hmem) (by decide)

theorem nests (hP : ∀ n, P n → IsName n) (h : Renaming P IsShort t t') (hn : Nests t') : Nests t := by
  have hQ : ∀ n, IsShort n → IsName n := fun _ => IsShort.isName
  have hopen : Outside '\x7b' := by with_unfolding_all decide
  have hclose : Outside '\x7d' := by with_unfolding_all decide
  have hline : Outside '\n' := by with_unfolding_all decide
  have hquotes : Outside '\'' ∧ Outside '"' := by with_unfolding_all decide
  have hquote {q : Char} (hq : isQuote q = true) : Outside q := by
    rcases Bool.or_eq_true_iff.1 hq with hq | hq
    · exact beq_iff_eq.1 hq ▸ hquotes.1
    · exact beq_iff_eq.1 hq ▸ hquotes.2
  cases hn with
  | @intro b₁ b₂ b₃ b₄ names b₅ b₆ source rest q q' hblank hnames hq hsource hq' =>
    have hx : ∀ b ∈ [b₁, b₂, b₃, b₄, b₅, b₆], 'x' ∉ b := fun b hb => notMem_of_forall_isBlank (hblank b hb)
    simp only [List.forall_mem_cons] at hx
    obtain ⟨hx₁, hx₂, hx₃, hx₄, hx₅, hx₆, -⟩ := hx
    obtain ⟨o₁, r₁, rfl, ho₁, hr₁⟩ := h.split_outside hQ hopen
    obtain ⟨o₂, r₂, rfl, ho₂, hr₂⟩ := hr₁.split_outside hQ hline
    obtain ⟨o₃, r₃, rfl, ho₃, hr₃⟩ := hr₂.split_outside hQ hopen
    obtain ⟨names', r₄, rfl, hnames', hr₄⟩ := hr₃.split_outside hQ hclose
    obtain ⟨o₅, r₅, rfl, ho₅, hr₅⟩ := hr₄.split_outside hQ (hquote hq)
    obtain ⟨source', r₆, rfl, hsource', -⟩ := hr₅.split_outside hQ (hquote hq')
    rw [ho₁.eq_of_headless (not_infix_exportHead (by simp [hx₁])), ho₂.eq_of_headless (not_infix_exportHead hx₂),
      ho₃.eq_of_headless (not_infix_exportHead (by simp [hx₃, hx₄])),
      ho₅.eq_of_headless (not_infix_exportHead (by simp [hx₅, hx₆]))]
    refine .intro hblank ⟨mt hnames'.eq_nil_iff.1 hnames.1, fun c hc => bne_iff_ne.2 ?_⟩ hq
      ⟨mt hsource'.eq_nil_iff.1 hsource.1, fun c hc => ?_⟩ hq'
    · rintro rfl
      exact bne_iff_ne.1 (hnames.2 _ ((hnames'.mem_iff_of_outside hP hQ hclose).1 hc)) rfl
    · rw [Bool.not_eq_true']
      refine Bool.eq_false_iff.2 fun hcq => ?_
      have hc' := hsource.2 c ((hsource'.mem_iff_of_outside hP hQ (hquote hcq)).1 hc)
      simp [hcq] at hc'

theorem dangles (h : Renaming P IsShort t t') (hd : Dangles t') : Dangles t := by
  have hQ : ∀ n, IsShort n → IsName n := fun _ => IsShort.isName
  have himport : 'e' ∉ "import".toList := by decide
  cases hd with
  | @intro b₁ b₂ b₃ rest hblank hrest =>
    have hx : ∀ b ∈ [b₁, b₂, b₃], 'x' ∉ b := fun b hb => notMem_of_forall_isBlank (hblank b hb)
    simp only [List.forall_mem_cons] at hx
    obtain ⟨hx₁, hx₂, hx₃, -⟩ := hx
    obtain ⟨o₁, r₁, rfl, ho₁, hr₁⟩ := h.split_outside hQ (by with_unfolding_all decide : Outside '\x7b')
    obtain ⟨o₂, r₂, rfl, ho₂, hr₂⟩ := hr₁.split_outside hQ (by with_unfolding_all decide : Outside '\n')
    rw [ho₁.eq_of_headless (not_infix_exportHead (by simp [hx₁])),
      ho₂.eq_of_headless (not_infix_exportHead hx₂)]
    -- The head of an export begins with a letter that is not in the import, so none runs out of it.
    rcases hr₂.split with ⟨o₃, rest', rfl, ho₃, hrest'⟩ | ⟨n, y, y', a₀, b₀, -, hy, hne, -, ha, -⟩
    · rw [ho₃.eq_of_headless (not_infix_exportHead (by simp [hx₃]))]
      exact .intro hblank (hrest'.endsName_iff.2 hrest)
    · obtain ⟨u, hu⟩ := exists_exportHead_eq_cons
      obtain ⟨d, y, rfl⟩ := List.exists_cons_of_ne_nil hne
      rw [hu, List.cons_append, List.cons_append] at hy
      obtain ⟨rfl, -⟩ := List.cons.inj hy
      have he : 'e' ∈ b₃ ++ "import".toList := by
        rw [ha]
        simp
      rcases List.mem_append.1 he with he | he
      · exact absurd (hblank b₃ (by simp) 'e' he) (by decide)
      · exact absurd he himport

end Renaming

/-- **Short names leave no import block open.** -/
theorem Closed.renaming {P : Text → Prop} {t t' : Text} (hP : ∀ n, P n → IsName n) (ht : Closed t)
    (h : Renaming P IsShort t t') : Closed t' := by
  rw [closed_iff] at ht ⊢
  rintro u' v' rfl
  refine ⟨fun hn => ?_, fun hline hd => ?_⟩
  · obtain ⟨u, v, rfl, -, hv⟩ := h.split_import hn.import_prefix
    exact (ht u v rfl).1 (hv.nests hP hn)
  · obtain ⟨u, v, rfl, hu, hv⟩ := h.split_import hd.import_prefix
    exact (ht u v rfl).2 (hu.startsLine hline) (hv.dangles hd)

/-! ### Repeated imports -/

/-- Whether a line is an import statement. -/
def isImport (line : Text) : Bool := completeImport.beginsWith (collapseBlanks line)

/-- The collapsed import statements among the lines. -/
def importsOf (ls : List Text) : List Text := (ls.filter isImport).map collapseBlanks

theorem importsOf_cons_of_not {l : Text} (hl : isImport l = false) (ls : List Text) : importsOf (l :: ls) = importsOf ls := by
  rw [importsOf, List.filter_cons_of_neg (by simp [hl]), importsOf]

theorem importsOf_cons_of_isImport {l : Text} (hl : isImport l = true) (ls : List Text) :
    importsOf (l :: ls) = collapseBlanks l :: importsOf ls := by
  rw [importsOf, List.filter_cons_of_pos hl, List.map_cons, importsOf]

theorem dropRepeatedImports_cons_of_not {l : Text} (hl : isImport l = false) (seen ls : List Text) :
    dropRepeatedImports seen (l :: ls) = l :: dropRepeatedImports seen ls := by
  rw [dropRepeatedImports]
  exact if_neg (by rw [isImport] at hl; simp [hl])

theorem dropRepeatedImports_cons_of_isImport {l : Text} (hl : isImport l = true) (seen ls : List Text) :
    dropRepeatedImports seen (l :: ls) = if collapseBlanks l ∈ seen then dropRepeatedImports seen ls
      else l :: dropRepeatedImports (collapseBlanks l :: seen) ls := by
  rw [isImport] at hl
  rw [dropRepeatedImports]
  simp [hl]

theorem dropRepeatedImports_sublist (seen ls : List Text) : List.Sublist (dropRepeatedImports seen ls) ls := by
  induction ls generalizing seen with
  | nil => exact .slnil
  | cons l ls ih =>
    cases hl : isImport l with
    | false => exact dropRepeatedImports_cons_of_not hl seen ls ▸ (ih seen).cons_cons l
    | true =>
      rw [dropRepeatedImports_cons_of_isImport hl]
      split
      · exact (ih seen).cons l
      · exact (ih _).cons_cons l

/-- No import is repeated after a seen one or another. -/
def Fresh (seen ls : List Text) : Prop := (importsOf ls).Nodup ∧ ∀ c ∈ importsOf ls, c ∉ seen

theorem fresh_cons_of_isImport {l : Text} (hl : isImport l = true) {seen ls : List Text} :
    Fresh seen (l :: ls) ↔ collapseBlanks l ∉ seen ∧ Fresh (collapseBlanks l :: seen) ls := by
  unfold Fresh
  rw [importsOf_cons_of_isImport hl, List.nodup_cons, List.forall_mem_cons]
  constructor
  · rintro ⟨⟨hnot, hnodup⟩, hseen, hrest⟩
    exact ⟨hseen, hnodup, fun c hc hmem => (List.mem_cons.1 hmem).elim (fun heq => hnot (heq ▸ hc)) (hrest c hc)⟩
  · rintro ⟨hseen, hnodup, hrest⟩
    refine ⟨⟨fun hmem => hrest _ hmem (List.mem_cons_self ..), hnodup⟩, hseen, fun c hc hmem => ?_⟩
    exact hrest c hc (List.mem_cons_of_mem _ hmem)

/-- **The lines are left alone just if no import is repeated.** -/
theorem dropRepeatedImports_eq_self_iff {seen ls : List Text} : dropRepeatedImports seen ls = ls ↔ Fresh seen ls := by
  induction ls generalizing seen with
  | nil => simp [dropRepeatedImports, Fresh, importsOf]
  | cons l ls ih =>
    cases hl : isImport l with
    | false =>
      rw [dropRepeatedImports_cons_of_not hl, List.cons_inj_right, ih, Fresh, Fresh, importsOf_cons_of_not hl]
    | true =>
      rw [dropRepeatedImports_cons_of_isImport hl, fresh_cons_of_isImport hl]
      split
      · rename_i hseen
        refine iff_of_false (fun heq => ?_) fun h => h.1 hseen
        have hle := (dropRepeatedImports_sublist seen ls).length_le
        rw [heq, List.length_cons] at hle
        omega
      · rename_i hseen
        rw [List.cons_inj_right, ih, and_iff_right hseen]

/-- What is left has no repeated import. -/
theorem fresh_dropRepeatedImports (seen ls : List Text) : Fresh seen (dropRepeatedImports seen ls) := by
  induction ls generalizing seen with
  | nil => simp [dropRepeatedImports, Fresh, importsOf]
  | cons l ls ih =>
    cases hl : isImport l with
    | false =>
      rw [dropRepeatedImports_cons_of_not hl, Fresh, importsOf_cons_of_not hl]
      exact ih seen
    | true =>
      rw [dropRepeatedImports_cons_of_isImport hl]
      split
      · exact ih seen
      · rename_i hseen
        exact (fresh_cons_of_isImport hl).2 ⟨hseen, ih _⟩

/-- **The pass over imports leaves a text alone** in which no block is left open and no import repeated. -/
theorem fixCorruptedImports_of {t : Text} (hclosed : Closed t) (hfresh : Fresh [] (Text.lines t)) :
    fixCorruptedImports t = t := by
  unfold fixCorruptedImports
  dsimp only
  rw [replace_of_absent hclosed.1, replace_of_absent hclosed.2, dropRepeatedImports_eq_self_iff.2 hfresh, Text.unlines_lines]

/-- The first line is never dropped, so the lines that are left are those of a text. -/
theorem lines_dropRepeatedImports (t : Text) :
    Text.lines (Text.unlines (dropRepeatedImports [] (Text.lines t))) = dropRepeatedImports [] (Text.lines t) := by
  obtain ⟨l, ls, hls⟩ := List.exists_cons_of_ne_nil (Text.lines_ne_nil t)
  have hfirst : ∃ rest, dropRepeatedImports [] (Text.lines t) = l :: rest := by
    rw [hls]
    cases hl : isImport l with
    | false => exact ⟨_, dropRepeatedImports_cons_of_not hl [] ls⟩
    | true => exact ⟨_, (dropRepeatedImports_cons_of_isImport hl [] ls).trans (if_neg (List.not_mem_nil))⟩
  obtain ⟨rest, hrest⟩ := hfirst
  exact Text.lines_unlines (by simp [hrest]) fun l hl =>
    Text.notMem_of_mem_lines ((dropRepeatedImports_sublist _ _).subset hl)

theorem fresh_fixCorruptedImports (t : Text) : Fresh [] (Text.lines (fixCorruptedImports t)) := by
  unfold fixCorruptedImports
  dsimp only
  rw [lines_dropRepeatedImports]
  exact fresh_dropRepeatedImports _ _

/-! ### What is put in front, and names -/

theorem not_isImport_front : isImport [] = false ∧ isImport Guard.clientDirective.toList = false := by decide

theorem importsOf_newlines_append {nl : Text} (hnl : ∀ c ∈ nl, c = '\n') (r : Text) :
    importsOf (Text.lines (nl ++ r)) = importsOf (Text.lines r) := by
  induction nl with
  | nil => rfl
  | cons c nl ih =>
    rw [List.forall_mem_cons] at hnl
    rw [hnl.1, List.cons_append, Text.lines_newline, importsOf_cons_of_not not_isImport_front.1, ih hnl.2]

theorem importsOf_mark (r : Text) :
    importsOf (Text.lines (Guard.clientDirective.toList ++ '\n' :: r)) = importsOf (Text.lines r) := by
  rw [Text.lines_append_newline, Text.lines_of_notMem (by decide), List.singleton_append,
    importsOf_cons_of_not not_isImport_front.2]

/-- The passes for the mark read and write no import. -/
theorem Spaced.importsOf_eq {u t : Text} (h : Spaced u t) : importsOf (Text.lines t) = importsOf (Text.lines u) := by
  cases h with
  | same => rfl
  | @added nl r hu hnl =>
    rw [importsOf_mark, Text.lines_newline, importsOf_cons_of_not not_isImport_front.1, hu, importsOf_newlines_append hnl]
  | @there nl r hu hnl =>
    rw [importsOf_mark, Text.lines_newline, importsOf_cons_of_not not_isImport_front.1, hu, importsOf_mark,
      importsOf_newlines_append hnl]

/-- The passes for the mark leave no import block open. -/
theorem Closed.spaced {u t : Text} (h : Closed u) (hs : Spaced u t) : Closed t := by
  have hfront {r : Text} (hr : Closed r) : Closed (Guard.clientDirective.toList ++ '\n' :: '\n' :: r) := by
    have hblank : Closed ([] ++ '\n' :: r) := hr.front (by decide)
    exact hblank.front (by decide)
  have hline {nl : Text} (hnl : ∀ c ∈ nl, c = '\n') : StartsLine nl := by
    rcases List.eq_nil_or_concat nl with rfl | ⟨nl, c, rfl⟩
    · rfl
    · rw [hnl c (by simp)]
      simp [StartsLine]
  cases hs with
  | same => exact h
  | @added nl r hu hnl => exact hfront ((hu ▸ h).right (hline hnl))
  | @there nl r hu hnl =>
    rw [hu, List.append_cons] at h
    exact hfront ((h.right (by simp [StartsLine])).right (hline hnl))

/-- Shortening changes a line only where it has the head of an export. -/
theorem lines_shorten (t : Text) :
    List.Forall₂ (fun l l' => ¬ exportHead <:+: l' → l = l') (Text.lines t) (Text.lines (shorten t)) := by
  have hstep {word : String} (hword : word ∈ shortWords) (t : Text) :
      List.Forall₂ (fun l l' => ¬ exportHead <:+: l' → l = l') (Text.lines t) (Text.lines (shortenTo word t)) := by
    have hshort : ∀ n : Text, n = word.toList → IsName n := fun n hn => hn ▸ isName_of_mem_shortWords hword
    exact ((shortenTo_renaming hword t).lines (fun _ h => h) hshort).imp fun _ _ h => h.eq_of_headless
  have hpage := hstep (by decide : "Page" ∈ shortWords) t
  have hlayout := hstep (by decide : "Layout" ∈ shortWords) (shortenTo "Page" t)
  rw [shorten]
  generalize Text.lines t = ls, Text.lines (shortenTo "Page" t) = ls', Text.lines (shortenTo "Layout" (shortenTo "Page" t)) = ls''
    at hpage hlayout ⊢
  induction hpage generalizing ls'' with
  | nil =>
    cases hlayout
    exact .nil
  | cons hl _ ih =>
    cases hlayout with
    | cons hl' hls =>
      refine .cons (fun hno => ?_) (ih _ hls)
      have heq := hl' hno
      rw [← heq]
      exact hl (heq ▸ hno)

/-- **Shortening repeats no import**, if no import has the head of an export. -/
theorem fresh_shorten {t : Text} (h : Fresh [] (Text.lines t))
    (himport : ∀ l ∈ Text.lines (shorten t), isImport l = true → ¬ exportHead <:+: l) : Fresh [] (Text.lines (shorten t)) := by
  have hsub : List.Sublist (importsOf (Text.lines (shorten t))) (importsOf (Text.lines t)) := by
    have hlines := lines_shorten t
    generalize Text.lines t = ls, Text.lines (shorten t) = ls' at hlines himport ⊢
    induction hlines with
    | nil => exact .slnil
    | @cons l l' ls ls' hl _ ih =>
      rw [List.forall_mem_cons] at himport
      have hrest := ih himport.2
      cases hl' : isImport l' with
      | true =>
        obtain rfl := hl (himport.1 hl')
        rw [importsOf_cons_of_isImport hl', importsOf_cons_of_isImport hl']
        exact hrest.cons_cons _
      | false =>
        rw [importsOf_cons_of_not hl']
        cases hl'' : isImport l with
        | true => exact importsOf_cons_of_isImport hl'' ls ▸ hrest.cons _
        | false => exact importsOf_cons_of_not hl'' ls ▸ hrest
  exact ⟨h.1.sublist hsub, fun c _ => List.not_mem_nil⟩

end LayeredFix.Pass.Convention
