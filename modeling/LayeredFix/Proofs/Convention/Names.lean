import LayeredFix.Pass.Convention
import LayeredFix.Proofs.Text.Lines
import LayeredFix.Proofs.Text.Reading
import Mathlib.Data.List.Infix

/-!
# Names of exported components

The router's pass gives pages and layouts short names. What it does to a text is a `Renaming`: each character is kept, but
for the names after the head of an exported function. A stretch that the heads and the short names do not touch is
found again on the other side (`Renaming.split`).

A name is read to its end, so the names that are left are short, or hold neither word (`run_of_replace`): giving short
names a second time changes nothing (`shorten_idempotent`).
-/

namespace LayeredFix.Pass.Convention

open Pattern

/-- The head of the export of a function. -/
@[irreducible] def exportHead : Text := "export default function ".toList

theorem exportNamed_eq (word : String) : exportNamed word = exportHead ++ word.toList := by
  rw [exportNamed, String.toList_append, exportHead]

theorem exists_exportHead_eq_cons : ∃ u, exportHead = 'e' :: u := by
  refine ⟨exportHead.tail, ?_⟩
  with_unfolding_all decide

/-- Word characters only. -/
def IsName (n : Text) : Prop := ∀ c ∈ n, Text.isWord c = true

/-- A character that is neither in a head nor in a name. -/
def Outside (c : Char) : Prop := Text.isWord c = false ∧ c ∉ exportHead

instance (c : Char) : Decidable (Outside c) := inferInstanceAs (Decidable (_ ∧ _))

theorem notMem_of_outside {c : Char} (hc : Outside c) {n : Text} (hn : IsName n) : c ∉ exportHead ++ n := by
  rw [List.mem_append, not_or]
  exact ⟨hc.2, fun hmem => absurd ((hn c hmem).symm.trans hc.1) (by decide)⟩

/-- A name does not go on in a text. -/
def EndsName (t : Text) : Prop := ∀ c, t.head? = some c → Text.isWord c = false

theorem EndsName.left {a b : Text} (h : EndsName (a ++ b)) : EndsName a := by
  cases a with
  | nil => exact fun c hc => nomatch hc
  | cons d a => exact h

/-- A text begins with a name that does not go on. -/
theorem exists_run (t : Text) : ∃ rest, t = t.takeWhile Text.isWord ++ rest ∧ EndsName rest := by
  induction t with
  | nil => exact ⟨[], rfl, fun c hc => nomatch hc⟩
  | cons c t ih =>
    obtain ⟨rest, ht, hend⟩ := ih
    by_cases hc : Text.isWord c = true
    · refine ⟨rest, ?_, hend⟩
      rw [List.takeWhile_cons_of_pos hc, List.cons_append, ← ht]
    · refine ⟨c :: t, by rw [List.takeWhile_cons_of_neg hc, List.nil_append], fun d hd => ?_⟩
      obtain rfl : c = d := Option.some.inj hd
      simpa using hc

theorem takeWhile_run {n t : Text} (hn : IsName n) (hend : EndsName t) : (n ++ t).takeWhile Text.isWord = n := by
  rw [List.takeWhile_append_of_pos hn]
  cases t with
  | nil => simp
  | cons c t => rw [List.takeWhile_cons_of_neg (by simp [hend c rfl]), List.append_nil]

/-! ### Texts that differ in names -/

/-- Two texts are the same but for names of exported functions. Those of the first satisfy `P`, those of the second
`Q`. -/
inductive Renaming (P Q : Text → Prop) : Text → Text → Prop where
  /-- Nothing is left. -/
  | nil : Renaming P Q [] []
  /-- A character is the same. -/
  | keep (c : Char) {t t' : Text} (h : Renaming P Q t t') : Renaming P Q (c :: t) (c :: t')
  /-- A function has another name. -/
  | name {n n' t t' : Text} (hn : P n) (hn' : Q n') (hend : EndsName t) (h : Renaming P Q t t') :
      Renaming P Q (exportHead ++ (n ++ t)) (exportHead ++ (n' ++ t'))

namespace Renaming

variable {P Q : Text → Prop} {t t' a b : Text}

theorem refl (t : Text) : Renaming P Q t t := by
  induction t with
  | nil => exact .nil
  | cons c t ih => exact .keep c ih

theorem head? (h : Renaming P Q t t') : t.head? = t'.head? := by
  cases h with
  | nil => rfl
  | keep c => rfl
  | name =>
    obtain ⟨u, hu⟩ := exists_exportHead_eq_cons
    rw [hu]
    rfl

theorem eq_nil_iff (h : Renaming P Q t t') : t = [] ↔ t' = [] := by
  rw [← List.head?_eq_none_iff, h.head?, List.head?_eq_none_iff]

theorem endsName_iff (h : Renaming P Q t t') : EndsName t ↔ EndsName t' := by
  rw [EndsName, h.head?, EndsName]

theorem symm (h : Renaming P Q t t') : Renaming Q P t' t := by
  induction h with
  | nil => exact .nil
  | keep c _ ih => exact .keep c ih
  | name hn hn' hend h ih => exact .name hn' hn (h.endsName_iff.1 hend) ih

theorem mono {P' Q' : Text → Prop} (hP : ∀ n, P n → P' n) (hQ : ∀ n, Q n → Q' n) (h : Renaming P Q t t') :
    Renaming P' Q' t t' := by
  induction h with
  | nil => exact .nil
  | keep c _ ih => exact .keep c ih
  | name hn hn' hend _ ih => exact .name (hP _ hn) (hQ _ hn') hend ih

/-- Two texts are the same, or have the head of an exported function at the same place. -/
theorem eq_or (h : Renaming P Q t t') :
    t = t' ∨ ∃ a b b', t = a ++ (exportHead ++ b) ∧ t' = a ++ (exportHead ++ b') := by
  induction h with
  | nil => exact Or.inl rfl
  | keep c _ ih =>
    rcases ih with rfl | ⟨a, b, b', rfl, rfl⟩
    · exact Or.inl rfl
    · exact Or.inr ⟨c :: a, b, b', rfl, rfl⟩
  | name => exact Or.inr ⟨[], _, _, rfl, rfl⟩

theorem eq_of_headless (h : Renaming P Q t t') (hno : ¬ exportHead <:+: t') : t = t' := by
  rcases h.eq_or with heq | ⟨a, b, b', -, rfl⟩
  · exact heq
  · exact absurd ⟨a, b', by simp⟩ hno

/-- **A cut of the second text is a cut of the first**, unless it goes through a head with its name. -/
theorem split (h : Renaming P Q t (a ++ b)) :
    (∃ a' b', t = a' ++ b' ∧ Renaming P Q a' a ∧ Renaming P Q b' b) ∨
      ∃ n y y' a₀ b₀, Q n ∧ exportHead ++ n = y ++ y' ∧ y ≠ [] ∧ y' ≠ [] ∧ a = a₀ ++ y ∧ b = y' ++ b₀ := by
  generalize hw : a ++ b = w at h
  induction h generalizing a b with
  | nil =>
    obtain ⟨rfl, rfl⟩ := List.append_eq_nil_iff.1 hw
    exact Or.inl ⟨[], [], rfl, .nil, .nil⟩
  | @keep c t w h ih =>
    cases a with
    | nil =>
      rw [List.nil_append] at hw
      exact Or.inl ⟨[], c :: t, rfl, .nil, by rw [hw]; exact .keep c h⟩
    | cons d a =>
      obtain ⟨rfl, htail⟩ := List.cons.inj hw
      rcases ih htail with ⟨a', b', rfl, ha, hb⟩ | ⟨n, y, y', a₀, b₀, hn, hy, hne, hne', rfl, rfl⟩
      · exact Or.inl ⟨d :: a', b', rfl, .keep d ha, hb⟩
      · exact Or.inr ⟨n, y, y', d :: a₀, b₀, hn, hy, hne, hne', rfl, rfl⟩
  | @name n n' t w hn hn' hend h ih =>
    rw [← List.append_assoc] at hw
    rcases List.append_eq_append_iff.1 hw with ⟨y', hy, hb⟩ | ⟨a₁, ha, hw⟩
    · by_cases hne : a = []
      · subst hne
        rw [List.nil_append] at hw
        refine Or.inl ⟨[], _, rfl, .nil, ?_⟩
        rw [hw, List.append_assoc]
        exact .name hn hn' hend h
      · by_cases hne' : y' = []
        · subst hne'
          rw [List.append_nil] at hy
          refine Or.inl ⟨exportHead ++ (n ++ []), t, by simp, ?_, by rwa [hb, List.nil_append]⟩
          rw [← hy, ← List.append_nil (exportHead ++ n'), List.append_assoc]
          exact .name hn hn' (fun c hc => nomatch hc) .nil
        · exact Or.inr ⟨n', a, y', [], w, hn', hy, hne, hne', rfl, hb⟩
    · rcases ih hw.symm with ⟨a', b', rfl, ha', hb⟩ | ⟨m, y, y', a₀, b₀, hm, hy, hne, hne', rfl, rfl⟩
      · refine Or.inl ⟨exportHead ++ (n ++ a'), b', by simp, ?_, hb⟩
        rw [ha, List.append_assoc]
        exact .name hn hn' hend.left ha'
      · exact Or.inr ⟨m, y, y', exportHead ++ n' ++ a₀, b₀, hm, hy, hne, hne', by rw [ha]; simp only [List.append_assoc], rfl⟩

theorem take_eq (h : Renaming P Q t t') {k : Nat} (hk : k ≤ exportHead.length) : t.take k = t'.take k := by
  induction h generalizing k with
  | nil => rfl
  | keep c _ ih =>
    cases k with
    | zero => rfl
    | succ k => rw [List.take_succ_cons, List.take_succ_cons, ih (by omega)]
  | name => rw [List.take_append_of_le_length hk, List.take_append_of_le_length hk]

theorem takeWhile_eq (h : Renaming P Q t t') : t.takeWhile Text.isWord = t'.takeWhile Text.isWord := by
  induction h with
  | nil => rfl
  | keep c _ ih => rw [List.takeWhile_cons, List.takeWhile_cons, ih]
  | name =>
    obtain ⟨u, hu⟩ : ∃ u, exportHead = "export".toList ++ ' ' :: u := ⟨exportHead.drop 7, by with_unfolding_all decide⟩
    have hword : ∀ c ∈ "export".toList, Text.isWord c = true := by decide
    have hblank : Text.isWord ' ' = false := by decide
    simp only [hu, List.append_assoc, List.cons_append, List.takeWhile_append_of_pos hword, List.takeWhile_cons, hblank,
      Bool.false_eq_true, if_false]

/-- A word without blanks that new names do not run into stood there before. -/
theorem infix_before {w : Text} (hblank : ' ' ∉ w)
    (happart : ∀ n, Q n → ∀ y, y <:+ n → y ≠ [] → ¬ y <+: w ∧ ¬ w <+: y) (h : Renaming P Q t t') :
    ∀ a, w <:+: a ++ t' → w <:+: a ++ t := by
  induction h with
  | nil => exact fun a h => h
  | keep c _ ih =>
    intro a hin
    rw [List.append_cons] at hin ⊢
    exact ih _ hin
  | @name n n' t t' hn hn' hend h ih =>
    intro a hin
    have hhead : exportHead = exportHead.dropLast ++ [' '] := by with_unfolding_all decide
    rw [hhead, List.append_assoc, List.singleton_append, ← List.append_assoc, Text.infix_append_cons_iff hblank] at hin
    rw [hhead, List.append_assoc, List.singleton_append, ← List.append_assoc]
    rcases hin with hin | hin
    · exact hin.trans (List.prefix_append _ _).isInfix
    · have hrest := ih [] (Text.infix_right_of_apart (happart n' hn') hin)
      exact hrest.trans (List.IsSuffix.isInfix ⟨a ++ exportHead.dropLast ++ ' ' :: n, by simp⟩)

/-- A character outside of heads and names is found again. -/
theorem split_outside (hQ : ∀ n, Q n → IsName n) {c : Char} (hc : Outside c) (h : Renaming P Q t (a ++ c :: b)) :
    ∃ a' b', t = a' ++ c :: b' ∧ Renaming P Q a' a ∧ Renaming P Q b' b := by
  rcases h.split with ⟨a', b', rfl, ha, hb⟩ | ⟨n, y, y', a₀, b₀, hn, hy, -, hne', -, hb⟩
  · generalize hw : c :: b = w at hb
    cases hb with
    | nil => cases hw
    | keep d hb =>
      obtain ⟨rfl, rfl⟩ := List.cons.inj hw
      exact ⟨a', _, rfl, ha, hb⟩
    | name =>
      obtain ⟨u, hu⟩ := exists_exportHead_eq_cons
      rw [hu, List.cons_append] at hw
      obtain ⟨rfl, -⟩ := List.cons.inj hw
      exact absurd (hu ▸ List.mem_cons_self ..) hc.2
  · obtain ⟨d, y', rfl⟩ := List.exists_cons_of_ne_nil hne'
    obtain ⟨rfl, -⟩ := List.cons.inj hb
    exact absurd (by simp [hy]) (notMem_of_outside hc (hQ n hn))

theorem mem_iff_of_outside (hP : ∀ n, P n → IsName n) (hQ : ∀ n, Q n → IsName n) {c : Char} (hc : Outside c)
    (h : Renaming P Q t t') : c ∈ t ↔ c ∈ t' := by
  constructor
  · intro hmem
    obtain ⟨a, b, rfl⟩ := List.append_of_mem hmem
    obtain ⟨a', b', rfl, -⟩ := h.symm.split_outside hP hc
    simp
  · intro hmem
    obtain ⟨a, b, rfl⟩ := List.append_of_mem hmem
    obtain ⟨a', b', rfl, -⟩ := h.split_outside hQ hc
    simp

/-- A word between characters outside of heads and names, without a head in it, stands in both texts. -/
theorem infix_of_outside (hQ : ∀ n, Q n → IsName n) {c d : Char} {w : Text} (hc : Outside c) (hd : Outside d)
    (hw : ¬ exportHead <:+: w) (h : Renaming P Q t t') (hin : c :: (w ++ [d]) <:+: t') : c :: (w ++ [d]) <:+: t := by
  obtain ⟨a, b, rfl⟩ := hin
  rw [List.append_assoc, List.cons_append, List.append_assoc, List.singleton_append] at h
  obtain ⟨a', b', rfl, -, hb⟩ := h.split_outside hQ hc
  obtain ⟨w', b', rfl, hw', -⟩ := hb.split_outside hQ hd
  exact ⟨a', b', by rw [hw'.eq_of_headless hw]; simp⟩

end Renaming

/-! ### Shortening -/

/-- The words that names are shortened to. -/
def shortWords : List String := ["Page", "Layout"]

theorem isName_of_mem_shortWords {word : String} (h : word ∈ shortWords) : IsName word.toList := by
  have hall : ∀ word ∈ shortWords, ∀ c ∈ word.toList, Text.isWord c = true := by decide
  exact hall word h

/-- The short name for all names that hold a word. -/
def shortenTo (word : String) (t : Text) : Text := (exportOf word).replace (fun _ => exportNamed word) t

section
variable {word : String} (hword : word ∈ shortWords) {behind t : Text} {h : Hit}
include hword

/-- What is matched is a head with the whole name, which holds the word. -/
theorem exportOf_hit (hh : (exportOf word).hit? behind t = some h) : ∃ n rest,
    h.text = exportHead ++ n ∧ t = exportHead ++ (n ++ rest) ∧ IsName n ∧ EndsName rest ∧ word.toList <:+: n := by
  obtain ⟨rest, ht, htakes⟩ := takes_of_hit? hh
  simp only [exportOf, Pattern.all, takes_seq_text, plain_many.takes_seq] at htakes
  obtain ⟨_, htext, u, _, rfl, hu, v, rfl, hv, -⟩ := htakes
  have hmany (s : Place) : (exportOf word).hitAt s = (seq (seq (seq (text "export default function ") (many Text.isWord))
      (text word)) (many Text.isWord)).hitAt s := by
    rw [hitAt_eq, hitAt_eq, ← ends_seq_assoc, ← ends_seq_assoc]
    rfl
  refine ⟨u ++ (word.toList ++ v), rest, by rw [htext, exportHead], ?_, ?_, fun c hc => ?_, ⟨u, v, by simp⟩⟩
  · rw [ht, htext, exportHead, List.append_assoc]
  · exact List.forall_mem_append.2 ⟨hu, List.forall_mem_append.2 ⟨isName_of_mem_shortWords hword, hv⟩⟩
  · rw [hit?, hmany] at hh
    exact not_head_of_hitAt_many hh ht hc

theorem replaceFrom_renaming : Renaming IsName (· = word.toList) t
    ((exportOf word).replaceFrom (fun _ => exportNamed word) behind t) := by
  fun_induction Pattern.replaceFrom (exportOf word) (fun _ => exportNamed word) behind t with
  | case1 => exact .nil
  | case2 behind c t hn ih => exact .keep c ih
  | case3 behind c t h hh hempty ih => exact .keep c ih
  | case4 behind c t h hh hne ih =>
    obtain ⟨n, rest, htext, ht, hn, hend, -⟩ := exportOf_hit hword hh
    have hdrop : t.drop (h.text.length - 1) = rest := by
      have hcut := text_hit?_cons hh fun hnil => hne (List.isEmpty_iff.2 hnil)
      rw [ht, htext, ← List.append_assoc, List.append_cancel_left_eq] at hcut
      rw [← htext] at hcut
      exact hcut.symm
    rw [hdrop] at ih ⊢
    generalize (exportOf word).replaceFrom _ _ rest = rest' at ih ⊢
    rw [ht, exportNamed_eq, List.append_assoc]
    exact .name hn rfl hend ih

/-- **Shortening changes names only.** -/
theorem shortenTo_renaming (t : Text) : Renaming IsName (· = word.toList) t (shortenTo word t) := by
  rw [shortenTo, replace_eq]
  exact replaceFrom_renaming hword

/-- A head does not overlap with the end of a head. -/
theorem skips_exportHead (hn : (exportOf word).hit? behind (exportHead ++ t) = none) :
    (exportOf word).Skips behind exportHead t := by
  intro u v huv hv
  cases u with
  | nil =>
    rw [List.nil_append] at huv
    rwa [← huv]
  | cons c u =>
    refine Option.eq_none_iff_forall_ne_some.2 fun h hh => ?_
    obtain ⟨n, rest, -, ht, -⟩ := exportOf_hit hword hh
    have hall : ∀ v ∈ exportHead.tail.tails, v ≠ [] → ¬ v <+: exportHead := by with_unfolding_all decide
    have hmem : v ∈ exportHead.tail.tails := by
      rw [List.mem_tails, huv]
      exact List.suffix_append u v
    have hle : v.length ≤ exportHead.length := by
      rw [huv, List.length_append]
      omega
    have hpre : v <+: exportHead :=
      List.prefix_of_prefix_length_le (List.prefix_append v t) (ht ▸ List.prefix_append _ _) hle
    exact hall v hmem hv hpre

/-- A head does not overlap with the end of a head with a short name, unless the name goes on. -/
theorem wordAfter_of_overlap {y : Text} (hy : y <:+ exportHead ++ word.toList) (hne : y ≠ [])
    (hlt : y.length < (exportHead ++ word.toList).length) {k : Text} (h : exportHead <+: y ++ k) : ¬ EndsName k := by
  have hall : ∀ word ∈ shortWords, ∀ y ∈ (exportHead ++ word.toList).tails, y ≠ [] →
      y.length < (exportHead ++ word.toList).length → ¬ exportHead <+: y ∧
        (y <+: exportHead → (exportHead.drop y.length).head?.any Text.isWord = true) := by with_unfolding_all decide
  obtain ⟨hno, hnext⟩ := hall word hword y ((List.mem_tails ..).2 hy) hne hlt
  have hpre : y <+: exportHead := (List.prefix_or_prefix_of_prefix (List.prefix_append y k) h).resolve_right hno
  obtain ⟨w, hw⟩ := hpre
  have hnext := hnext ⟨w, hw⟩
  rw [← hw, List.prefix_append_right_inj] at h
  rw [← hw, List.drop_left] at hnext
  obtain ⟨c, hc, hcword⟩ := (Option.any_eq_true _ _).1 hnext
  obtain ⟨k', rfl⟩ := h
  intro hend
  have hcfalse := hend c (by rw [List.head?_append, hc]; rfl)
  rw [hcword] at hcfalse
  cases hcfalse

/-- After shortening, a name is short, or it does not hold the word and stood there before. -/
theorem run_of_replaceFrom : ∀ {a n rest : Text},
    (exportOf word).replaceFrom (fun _ => exportNamed word) behind t = a ++ (exportHead ++ (n ++ rest)) →
      IsName n → EndsName rest → n = word.toList ∨ ¬ word.toList <:+: n ∧
        ∃ a' rest', t = a' ++ (exportHead ++ (n ++ rest')) ∧ EndsName rest' := by
  fun_induction Pattern.replaceFrom (exportOf word) (fun _ => exportNamed word) behind t with
  | case1 =>
    intro a n rest heq _ _
    obtain ⟨u, hu⟩ := exists_exportHead_eq_cons
    simp [hu] at heq
  | case2 behind c t hnone ih =>
    intro a n rest heq hn hend
    cases a with
    | cons d a =>
      obtain ⟨rfl, htail⟩ := List.cons.inj heq
      refine (ih htail hn hend).imp_right (And.imp_right ?_)
      rintro ⟨a', rest', rfl, hend'⟩
      exact ⟨c :: a', rest', rfl, hend'⟩
    | nil =>
      -- The head was copied, and so was the name, up to its end.
      have hcopy : Renaming IsName (· = word.toList) (c :: t) (exportHead ++ (n ++ rest)) := by
        rw [← List.nil_append (exportHead ++ _), ← heq]
        exact .keep c (replaceFrom_renaming hword)
      obtain ⟨t₂, ht₂⟩ : ∃ t₂, c :: t = exportHead ++ t₂ := by
        have htake := hcopy.take_eq le_rfl
        rw [List.take_left] at htake
        exact ⟨_, (htake ▸ List.take_append_drop _ _).symm⟩
      rw [ht₂] at hnone
      have hrest : (exportOf word).replaceFrom (fun _ => exportNamed word) (exportHead.reverse ++ behind) t₂ = n ++ rest := by
        have hskip := replaceFrom_append (f := fun _ => exportNamed word) (skips_exportHead hword hnone)
        rw [← ht₂, replaceFrom_cons_of_none (ht₂ ▸ hnone), heq, List.nil_append, List.append_cancel_left_eq] at hskip
        exact hskip.symm
      have hrename : Renaming IsName (· = word.toList) t₂ (n ++ rest) := hrest ▸ replaceFrom_renaming hword
      obtain ⟨rest', hrest', hend'⟩ := exists_run t₂
      rw [hrename.takeWhile_eq.trans (takeWhile_run hn hend)] at hrest'
      refine Or.inr ⟨?_, [], rest', by rw [ht₂, ← hrest', List.nil_append], hend'⟩
      rintro ⟨u, v, rfl⟩
      have htakes : (exportOf word).Takes behind [] (exportHead ++ (u ++ (word.toList ++ v))) rest' [] := by
        simp only [exportOf, Pattern.all, takes_seq_text, plain_many.takes_seq]
        exact ⟨_, by rw [exportHead], u, _, rfl, fun c hc => hn c (by simp [hc]), v, rfl, fun c hc => hn c (by simp [hc]), rfl⟩
      obtain ⟨hit, hhit⟩ := exists_hit? htakes
      rw [hrest', ← List.append_assoc, List.append_assoc u, hhit] at hnone
      cases hnone
  | case3 behind c t h hh hempty ih =>
    obtain ⟨n, rest, htext, -⟩ := exportOf_hit hword hh
    obtain ⟨u, hu⟩ := exists_exportHead_eq_cons
    rw [htext, hu] at hempty
    cases hempty
  | case4 behind c t h hh hne ih =>
    intro a n rest heq hn hend
    obtain ⟨old, rest₀, htext, ht, -, hend₀, -⟩ := exportOf_hit hword hh
    have hdrop : t.drop (h.text.length - 1) = rest₀ := by
      have hcut := text_hit?_cons hh fun hnil => hne (List.isEmpty_iff.2 hnil)
      rw [ht, htext, ← List.append_assoc, List.append_cancel_left_eq] at hcut
      rw [← htext] at hcut
      exact hcut.symm
    rw [hdrop] at ih heq
    have hendK : EndsName ((exportOf word).replaceFrom (fun _ => exportNamed word) (h.text.reverse ++ behind) rest₀) :=
      (replaceFrom_renaming hword).endsName_iff.1 hend₀
    generalize (exportOf word).replaceFrom _ _ rest₀ = k at ih heq hendK
    rw [exportNamed_eq] at heq
    have hbehind (a₁ : Text) (hk : k = a₁ ++ (exportHead ++ (n ++ rest))) : n = word.toList ∨ ¬ word.toList <:+: n ∧
        ∃ a' rest', c :: t = a' ++ (exportHead ++ (n ++ rest')) ∧ EndsName rest' := by
      refine (ih hk hn hend).imp_right (And.imp_right ?_)
      rintro ⟨a', rest', rfl, hend'⟩
      exact ⟨exportHead ++ (old ++ a'), rest', by rw [ht]; simp only [List.append_assoc], hend'⟩
    rcases List.append_eq_append_iff.1 heq with ⟨a₁, -, hk⟩ | ⟨y, hy, hx⟩
    · exact hbehind a₁ hk
    · by_cases hynil : y = []
      · rw [hynil, List.nil_append] at hx
        exact hbehind [] hx.symm
      · by_cases hanil : a = []
        · rw [hanil, List.nil_append] at hy
          rw [← hy, List.append_assoc, List.append_cancel_left_eq] at hx
          refine Or.inl ?_
          rw [← takeWhile_run hn hend, hx, takeWhile_run (isName_of_mem_shortWords hword) hendK]
        · have hlt : y.length < (exportHead ++ word.toList).length := by
            have hpos := List.length_pos_iff.2 hanil
            rw [hy, List.length_append]
            omega
          exact absurd hendK (wordAfter_of_overlap hword (hy ▸ List.suffix_append a y) hynil hlt
            (hx ▸ List.prefix_append _ _))

theorem run_of_shortenTo {t a n rest : Text} (heq : shortenTo word t = a ++ (exportHead ++ (n ++ rest))) (hn : IsName n)
    (hend : EndsName rest) : n = word.toList ∨ ¬ word.toList <:+: n ∧
      ∃ a' rest', t = a' ++ (exportHead ++ (n ++ rest')) ∧ EndsName rest' := by
  rw [shortenTo, replace_eq] at heq
  exact run_of_replaceFrom hword heq hn hend

/-- No name of an exported function holds the word, but for the word itself. -/
def ShortFor (word : String) (t : Text) : Prop := ∀ a n rest, t = a ++ (exportHead ++ (n ++ rest)) → IsName n → EndsName rest →
  word.toList <:+: n → n = word.toList

theorem shortenTo_of_shortFor {t : Text} (h : ShortFor word t) : shortenTo word t = t := by
  rw [shortenTo, replace_eq]
  refine replaceFrom_of_fixed fun u v hit ht hh => ?_
  obtain ⟨n, rest, htext, hv, hn, hend, hin⟩ := exportOf_hit hword hh
  rw [htext, h u n rest (by rw [ht, hv]) hn hend hin, exportNamed_eq]

theorem shortFor_shortenTo (t : Text) : ShortFor word (shortenTo word t) :=
  fun _ _ _ heq hn hend hin => (run_of_shortenTo hword heq hn hend).resolve_right fun h => h.1 hin

/-- Shortening to one word makes no long name that holds another. -/
theorem ShortFor.shortenTo {word' : String} {t : Text} (h : ShortFor word' t) (hne : ¬ word'.toList <:+: word.toList) :
    ShortFor word' (shortenTo word t) := by
  intro a n rest heq hn hend hin
  rcases run_of_shortenTo hword heq hn hend with rfl | ⟨-, a', rest', ht, hend'⟩
  · exact absurd hin hne
  · exact h a' n rest' ht hn hend' hin

end

/-- Short names for pages and layouts. -/
def shorten (t : Text) : Text := shortenTo "Layout" (shortenTo "Page" t)

theorem isShort_shorten (t : Text) : ∀ word ∈ shortWords, ShortFor word (shorten t) := by
  have hpage : ShortFor "Page" (shortenTo "Page" t) := shortFor_shortenTo (by decide) t
  have hother : ¬ "Page".toList <:+: "Layout".toList := by decide
  exact List.forall_mem_cons.2 ⟨hpage.shortenTo (by decide) hother, List.forall_mem_singleton.2 (shortFor_shortenTo (by decide) _)⟩

theorem shorten_of_isShort {t : Text} (h : ∀ word ∈ shortWords, ShortFor word t) : shorten t = t := by
  rw [shorten, shortenTo_of_shortFor (by decide) (h "Page" (by decide)),
    shortenTo_of_shortFor (by decide) (h "Layout" (by decide))]

/-- **Names are shortened once.** -/
theorem shorten_idempotent (t : Text) : shorten (shorten t) = shorten t := shorten_of_isShort (isShort_shorten t)

end LayeredFix.Pass.Convention
