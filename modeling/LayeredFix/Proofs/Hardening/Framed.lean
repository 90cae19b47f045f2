import LayeredFix.Proofs.Hardening.Seam
import LayeredFix.Proofs.Hardening.Wrapping

/-!
# Texts between line breaks

The last repair takes statements out of the text, or puts one in at its end. Put between two line breaks (`framed`), a text
shows the same signs as before, and all of its lines are alike: each comes behind a line break, and behind each comes another.
So a statement that begins or ends the text needs no lemmas of its own.
-/

namespace LayeredFix.Pass.Hardening

open Pattern
open Relation (ReflTransGen)

variable {t w a n l z k u b r : Text}

/-! ### Statements -/

/-- A statement that exports `n` as default. In front of it there may be blank lines. -/
def IsStatement (n l : Text) : Prop := ∃ b b', l = b ++ ("export default ".toList ++ (n ++ ';' :: b')) ∧
  (∀ c ∈ b, Text.isBlank c = true) ∧ (n ≠ [] ∧ ∀ c ∈ n, Text.isWord c = true) ∧ (∀ c ∈ b', Text.isBlank c = true) ∧ '\n' ∉ b'

theorem isDefaultStatement_iff (hl : '\n' ∉ l) : isDefaultStatement l = true ↔ ∃ n, IsStatement n l := by
  have htakes {w rest : Text} {g : List (Nat × Text)} : defaultStatement.Takes [] [] w rest g ↔
      ∃ b n b', w = b ++ ("export default ".toList ++ (n ++ (";".toList ++ b'))) ∧ (∀ c ∈ b, Text.isBlank c = true) ∧
        (n ≠ [] ∧ ∀ c ∈ n, Text.isWord c = true) ∧ (∀ c ∈ b', Text.isBlank c = true) ∧ (rest = [] ∨ rest = ['\n']) ∧ g = [] := by
    simp only [defaultStatement, Pattern.all, takes_seq_textStart, takes_seq_text, true_and, blanks, plain_many.takes_seq, word, plain_some1.takes_seq]
    constructor
    · rintro ⟨b, _, rfl, hb, _, rfl, n, _, rfl, hn, _, rfl, b', _, rfl, hb', ⟨hrest, rfl⟩, rfl⟩
      exact ⟨b, n, b', by simp, hb, hn, hb', hrest, rfl⟩
    · rintro ⟨b, n, b', rfl, hb, hn, hb', hrest, rfl⟩
      exact ⟨b, _, rfl, hb, _, rfl, n, _, rfl, hn, _, rfl, b', [], by simp, hb', ⟨hrest, rfl⟩, rfl⟩
  constructor
  · intro h
    obtain ⟨hit, hh⟩ := Option.isSome_iff_exists.1 h
    obtain ⟨rest, rfl, hw⟩ := takes_of_hit? (show defaultStatement.hit? [] l = some hit from hh)
    obtain ⟨b, n, b', heq, hb, hn, hb', hrest, -⟩ := htakes.1 hw
    rw [List.mem_append, not_or] at hl
    obtain rfl := hrest.resolve_right (by rintro rfl; simp at hl)
    rw [List.append_nil, heq]
    refine ⟨n, b, b', rfl, hb, hn, hb', fun hmem => hl.1 ?_⟩
    rw [heq]
    simp [hmem]
  · rintro ⟨n, b, b', rfl, hb, hn, hb', -⟩
    obtain ⟨hit, hh⟩ := exists_hit? (htakes.2 ⟨b, n, b', rfl, hb, hn, hb', Or.inl rfl, rfl⟩)
    rw [List.append_nil] at hh
    exact Option.isSome_iff_exists.2 ⟨hit, hh⟩

theorem IsStatement.notMem (hs : IsStatement n l) : ∀ c ∈ l, c ∉ "()\x7b\x7d[],".toList := by
  have hall : ∀ c ∈ "()\x7b\x7d[],".toList, Text.isBlank c = false ∧ Text.isWord c = false ∧ c ∉ "export default ".toList ∧
      c ≠ ';' := by decide
  obtain ⟨b, b', rfl, hb, hn, hb', -⟩ := hs
  intro c hc hmem
  obtain ⟨hblank, hword, hexport, hend⟩ := hall c hmem
  simp only [List.mem_append, List.mem_cons] at hc
  rcases hc with hc | hc | hc | rfl | hc
  · exact absurd ((hb c hc).symm.trans hblank) (by decide)
  · exact hexport hc
  · exact absurd ((hn.2 c hc).symm.trans hword) (by decide)
  · exact hend rfl
  · exact absurd ((hb' c hc).symm.trans hblank) (by decide)

/-! ### A text between two line breaks -/

/-- A text between two line breaks. -/
def framed (t : Text) : Text := '\n' :: (t ++ ['\n'])

theorem infix_framed_iff (hne : w ≠ []) (hw : '\n' ∉ w) : w <:+: framed t ↔ w <:+: t := by
  rw [framed, ← List.nil_append ('\n' :: (t ++ ['\n'])), Text.infix_append_cons_iff hw, Text.infix_append_cons_iff hw,
    List.infix_nil, or_iff_right hne, or_iff_left hne]

/-- What stands in a framed text and neither begins nor ends with a line break stands in the text. -/
theorem framed_eq_append (h : framed t = a ++ (w ++ z)) (hfirst : ∀ v, w ++ z ≠ '\n' :: v) (hlast : ∀ v, a ++ w ≠ v ++ ['\n']) :
    ∃ a' z', a = '\n' :: a' ∧ z = z' ++ ['\n'] ∧ t = a' ++ (w ++ z') := by
  rcases a with _ | ⟨c, a⟩
  · exact absurd h.symm (hfirst _)
  · obtain ⟨rfl, hinner⟩ := List.cons.inj h
    rcases List.eq_nil_or_concat z with rfl | ⟨z, c, rfl⟩
    · rw [List.append_nil] at h
      exact absurd h.symm (hlast ('\n' :: t))
    · have hcut : t ++ ['\n'] = (a ++ (w ++ z)) ++ [c] := by
        refine hinner.trans ?_
        simp
      obtain ⟨rfl, hc⟩ := List.append_inj' hcut rfl
      obtain rfl := List.singleton_inj.1 hc
      exact ⟨a, z, rfl, by simp, rfl⟩

theorem endsLine_concat_iff : EndsLine (r ++ ['\n']) ↔ EndsLine r := by
  constructor
  · rintro ⟨s, rest, heq, hs, hrest⟩
    rcases List.append_eq_append_iff.1 heq with ⟨v, rfl, hv⟩ | ⟨v, rfl, rfl⟩
    · rcases v with _ | ⟨c, v⟩
      · exact ⟨r, [], by simp, by simpa using hs, rfl⟩
      · obtain ⟨rfl, -⟩ := List.cons.inj hv
        exact absurd (hs '\n' (by simp)) (by decide)
    · refine ⟨s, v, rfl, hs, ?_⟩
      cases v with
      | nil => rfl
      | cons c v => exact hrest
  · rintro ⟨s, rest, rfl, hs, hrest⟩
    refine ⟨s, rest ++ ['\n'], by simp, hs, ?_⟩
    cases rest with
    | nil => rfl
    | cons c rest => exact hrest

theorem IsArrow.not_newline {v : Text} (hk : IsArrow k) : k ++ v ≠ '\n' :: r := by
  obtain ⟨i, m, p, rfl, hi, -⟩ := hk
  intro h
  rcases i with _ | ⟨c, i⟩
  · rw [show "const ".toList = 'c' :: "onst ".toList from rfl] at h
    exact absurd (List.cons.inj h).1 (by decide)
  · obtain ⟨rfl, -⟩ := List.cons.inj h
    exact absurd (hi _ (List.mem_cons_self ..)) (by decide)

theorem line_cons (u : Text) : ('\n' :: u).reverse.head?.all (· == '\n') = u.reverse.head?.all (· == '\n') := by
  rcases List.eq_nil_or_concat u with rfl | ⟨u, c, rfl⟩
  · rfl
  · simp

theorem Wraps.framed (h : Wraps t u k b z) : Wraps (framed t) ('\n' :: u) k b (z ++ ['\n']) := by
  have hends : b ++ '\x7d' :: (z ++ ['\n']) = (b ++ '\x7d' :: z) ++ ['\n'] := by simp
  refine ⟨by simp [Hardening.framed, h.text], (line_cons u).trans h.line, h.arrow, hends ▸ endsLine_concat_iff.2 h.ends, ?_,
    h.closed, h.awaits⟩
  intro u₁ u₂ k' r' heq hne hline hk' hr' hcontra
  rcases u₁ with _ | ⟨c, u₁⟩
  · rw [← show '\n' :: u = u₂ from heq] at hcontra
    exact hk'.not_newline hcontra.symm
  · obtain ⟨rfl, rfl⟩ := List.cons.inj heq
    rcases List.eq_nil_or_concat r' with rfl | ⟨r', c, rfl⟩
    · rw [hends, ← List.cons_append, ← List.append_assoc, ← List.append_assoc] at hcontra
      exact absurd (List.append_inj' hcontra rfl).2 (by decide)
    · have hcut : (u₂ ++ (k ++ '\x7b' :: (b ++ '\x7d' :: z))) ++ ['\n'] = (k' ++ '\x7b' :: r') ++ [c] := by
        simpa using hcontra
      obtain ⟨hfirst, hc⟩ := List.append_inj' hcut rfl
      obtain rfl := List.singleton_inj.1 hc
      rw [List.concat_eq_append, endsLine_concat_iff] at hr'
      exact h.first u₁ u₂ k' r' rfl hne ((line_cons u₁).symm.trans hline) hk' hr' hfirst

theorem Wraps.of_framed (h : Wraps (Hardening.framed t) u k b z) : ∃ u' z', Wraps t u' k b z' := by
  have htext : Hardening.framed t = u ++ ((k ++ '\x7b' :: (b ++ ['\x7d'])) ++ z) := by
    rw [h.text]
    simp
  obtain ⟨u, z, rfl, rfl, rfl⟩ := framed_eq_append htext (fun v hv => h.arrow.not_newline (by simpa using hv)) fun v hv => by
    rw [← List.cons_append, ← List.append_assoc, ← List.append_assoc] at hv
    exact absurd (List.append_inj' hv rfl).2 (by decide)
  have hends : b ++ '\x7d' :: (z ++ ['\n']) = (b ++ '\x7d' :: z) ++ ['\n'] := by simp
  refine ⟨u, z, by simp, (line_cons u).symm.trans h.line, h.arrow, endsLine_concat_iff.1 (hends ▸ h.ends), ?_, h.closed,
    h.awaits⟩
  rintro u₁ u₂ k' r' rfl hne hline hk' hr' hcontra
  refine h.first ('\n' :: u₁) u₂ k' (r' ++ ['\n']) rfl hne ((line_cons u₁).trans hline) hk' (endsLine_concat_iff.2 hr') ?_
  have hlong := congrArg (· ++ ['\n']) hcontra
  simpa using hlong

theorem exists_wraps_framed_iff : (∃ u k b z, Wraps (framed t) u k b z) ↔ ∃ u k b z, Wraps t u k b z := by
  constructor
  · rintro ⟨u, k, b, z, h⟩
    obtain ⟨u', z', h'⟩ := h.of_framed
    exact ⟨u', k, b, z', h'⟩
  · rintro ⟨u, k, b, z, h⟩
    exact ⟨_, k, b, _, h.framed⟩

theorem declares_framed_iff : Declares (framed t) ↔ Declares t := by
  constructor
  · rintro ⟨a, m, z, heq, hm⟩
    have htext : framed t = a ++ (("const [".toList ++ (m ++ "] = useState".toList)) ++ z) := by
      rw [heq]
      simp
    obtain ⟨a, z, rfl, rfl, rfl⟩ := framed_eq_append htext (fun v hv => by simp at hv) fun v hv => by
      rw [show "] = useState".toList = "] = useStat".toList ++ ['e'] from rfl, ← List.append_assoc, ← List.append_assoc,
        ← List.append_assoc] at hv
      exact absurd (List.append_inj' hv rfl).2 (by decide)
    exact ⟨a, m, z, by simp, hm⟩
  · rintro ⟨a, m, z, rfl, hm⟩
    exact ⟨'\n' :: a, m, z ++ ['\n'], by simp [framed], hm⟩

theorem Opens.append {v : Text} (h : Opens t n b z) : Opens (t ++ v) n b (z ++ v) := by
  obtain ⟨rfl, hn, hb⟩ := h
  exact ⟨by simp, hn, hb⟩

theorem allEnded_framed_iff : AllEnded [] (framed t) ↔ AllEnded [] t := by
  constructor
  · rintro h u v m b z rfl hedge ho
    refine h ('\n' :: u) (v ++ ['\n']) m b (z ++ ['\n']) (by simp [framed]) ?_ ho.append
    rcases List.eq_nil_or_concat u with rfl | ⟨u, c, rfl⟩
    · exact (by decide : Text.isWord '\n' = false)
    · simpa using hedge
  · rintro h u v m b z heq hedge ⟨rfl, hm, hb⟩
    have htext : framed t = u ++ ((m ++ '\x7b' :: (b ++ ['\x7d'])) ++ z) := by
      rw [heq]
      simp
    have hfirst (v : Text) : (m ++ '\x7b' :: (b ++ ['\x7d'])) ++ z ≠ '\n' :: v := by
      obtain ⟨s, name, s', rfl, -⟩ := hm
      simp
    obtain ⟨u, z, rfl, rfl, rfl⟩ := framed_eq_append htext hfirst fun v hv => by
      rw [← List.cons_append, ← List.append_assoc, ← List.append_assoc] at hv
      exact absurd (List.append_inj' hv rfl).2 (by decide)
    refine h u _ m b z rfl ?_ ⟨by simp, hm, hb⟩
    rcases List.eq_nil_or_concat u with rfl | ⟨u, c, rfl⟩
    · rfl
    · simpa using hedge

theorem shows_framed_iff {P : Text → Prop} {closed : Bool}
    (hP : ∀ w, P w → w ≠ [] ∧ w.head? ≠ some '\n' ∧ w.getLast? ≠ some '\n') :
    Shows P closed (framed t) ↔ Shows P closed t := by
  have hline : Text.isWord '\n' = false := by decide
  constructor
  · rintro ⟨a, w, z, heq, hw, hedge, hclosed⟩
    obtain ⟨hne, hfirst, hlast⟩ := hP w hw
    have hfront (v : Text) : w ++ z ≠ '\n' :: v := fun hv => by
      obtain ⟨c, w, rfl⟩ := List.exists_cons_of_ne_nil hne
      obtain rfl : c = '\n' := (List.cons.inj hv).1
      exact hfirst rfl
    have hback (v : Text) : a ++ w ≠ v ++ ['\n'] := fun hv => by
      obtain ⟨w, c, rfl⟩ := (List.eq_nil_or_concat w).resolve_left hne
      rw [List.concat_eq_append, ← List.append_assoc] at hv
      obtain rfl := List.singleton_inj.1 (List.append_inj' hv rfl).2
      exact hlast (by simp)
    obtain ⟨a, z, rfl, rfl, rfl⟩ := framed_eq_append heq hfront hback
    refine ⟨a, w, z, rfl, hw, ?_, fun hc => ?_⟩
    · rcases List.eq_nil_or_concat a with rfl | ⟨a, c, rfl⟩
      · rfl
      · simpa using hedge
    · rcases z with _ | ⟨c, z⟩
      · rfl
      · exact hclosed hc
  · intro h
    have hback : Shows P closed (t ++ ['\n']) := h.back fun _ => hline
    exact hback.front (a := []) hline

/-! ### Default exports of functions and classes -/

/-- What may be declared as default export. -/
def reserved : List Text := ["function", "class"].map String.toList

/-- A function or a class is declared as default export. -/
def DeclaresDefault (t : Text) : Prop :=
  ∃ a b q m z, t = a ++ '\n' :: (b ++ ("export default ".toList ++ (q ++ (m ++ z)))) ∧ (∀ c ∈ b, Text.isBlank c = true) ∧
    (q = [] ∨ ∃ s, q = "async".toList ++ s ∧ s ≠ [] ∧ ∀ c ∈ s, Text.isBlank c = true) ∧ m ∈ reserved ∧
    z.head?.any Text.isWord = false

theorem takes_defaultDeclaration {behind rest : Text} {g : List (Nat × Text)} : defaultDeclaration.Takes behind [] w rest g ↔
    behind.head?.all (· == '\n') = true ∧ ∃ b q m, w = b ++ ("export default ".toList ++ (q ++ m)) ∧
      (∀ c ∈ b, Text.isBlank c = true) ∧ (q = [] ∨ ∃ s, q = "async".toList ++ s ∧ s ≠ [] ∧ ∀ c ∈ s, Text.isBlank c = true) ∧
      m ∈ reserved ∧ rest.head?.any Text.isWord = false ∧ g = [] := by
  have hword : ∀ m ∈ reserved, m.reverse.head?.any Text.isWord = true ∧ m ≠ [] := by decide
  have hedge {m v : Text} (hm : m ∈ reserved) : (m.reverse ++ v).head?.any Text.isWord ≠ rest.head?.any Text.isWord ↔
      rest.head?.any Text.isWord = false := by
    have hlast : (m.reverse ++ v).head?.any Text.isWord = true := by
      have hm' := (hword m hm).1
      rcases hrev : m.reverse with _ | ⟨c, m'⟩
      · exact absurd (List.reverse_eq_nil_iff.1 hrev) (hword m hm).2
      · rw [hrev] at hm'
        exact hm'
    rw [hlast, ne_comm, ne_eq, Bool.not_eq_true]
  have hasync : Plain (optional (.seq (.text "async") blanks1)) _ := (plain_text.seq plain_some1).optional
  simp only [defaultDeclaration, Pattern.all, takes_seq_lineStart, takes_seq_text, blanks, plain_many.takes_seq,
    hasync.takes_seq, plain_anyText.takes_seq]
  refine and_congr_right fun _ => ?_
  constructor
  · rintro ⟨b, _, rfl, hb, _, rfl, q, _, rfl, hq, _, _, rfl, ⟨m, hm, rfl⟩, ⟨hrest, rfl⟩, rfl⟩
    have hm' : m.toList ∈ reserved := List.mem_map_of_mem hm
    refine ⟨b, q, m.toList, by simp, hb, ?_, hm', (hedge hm').1 hrest, rfl⟩
    rcases hq with ⟨_, s, rfl, rfl, hs⟩ | rfl
    · exact Or.inr ⟨s, rfl, hs⟩
    · exact Or.inl rfl
  · rintro ⟨b, q, _, rfl, hb, hq, hm, hrest, rfl⟩
    have hm' := hm
    obtain ⟨m, hmem, rfl⟩ := List.mem_map.1 hm
    refine ⟨b, _, rfl, hb, _, rfl, q, _, rfl, ?_, m.toList, [], by simp, ⟨m, hmem, rfl⟩, ⟨(hedge hm').2 hrest, rfl⟩, rfl⟩
    rcases hq with rfl | ⟨s, rfl, hs⟩
    · exact Or.inr rfl
    · exact Or.inl ⟨_, s, rfl, rfl, hs⟩

theorem defaultDeclaration_occursIn_iff : defaultDeclaration.occursIn t = true ↔ DeclaresDefault (framed t) := by
  rw [occursIn_iff]
  constructor
  · rintro ⟨a, _, z, g, rfl, h⟩
    obtain ⟨hline, b, q, m, rfl, hb, hq, hm, hz, -⟩ := takes_defaultDeclaration.1 h
    have hz' : (z ++ ['\n']).head?.any Text.isWord = false := by
      cases z with
      | nil => exact (by decide : Text.isWord '\n' = false)
      | cons c z => exact hz
    rcases List.eq_nil_or_concat a with rfl | ⟨a, c, rfl⟩
    · exact ⟨[], b, q, m, z ++ ['\n'], by simp [framed], hb, hq, hm, hz'⟩
    · obtain rfl : c = '\n' := by simpa using hline
      exact ⟨'\n' :: a, b, q, m, z ++ ['\n'], by simp [framed], hb, hq, hm, hz'⟩
  · rintro ⟨a, b, q, m, z, heq, hb, hq, hm, hz⟩
    have htext : framed t = (a ++ '\n' :: b) ++ (("export default ".toList ++ (q ++ m)) ++ z) := by
      rw [heq]
      simp
    have hback (v : Text) : (a ++ '\n' :: b) ++ ("export default ".toList ++ (q ++ m)) ≠ v ++ ['\n'] := fun hv => by
      have hall : ∀ m ∈ reserved, m ≠ [] ∧ '\n' ∉ m := by decide
      obtain ⟨hne, hno⟩ := hall m hm
      obtain ⟨m, c, rfl⟩ := (List.eq_nil_or_concat m).resolve_left hne
      rw [List.concat_eq_append, ← List.append_assoc, ← List.append_assoc, ← List.append_assoc] at hv
      obtain rfl := List.singleton_inj.1 (List.append_inj' hv rfl).2
      exact hno (by simp)
    obtain ⟨a', z, ha, rfl, rfl⟩ := framed_eq_append htext (by simp) hback
    have hz' : z.head?.any Text.isWord = false := by
      cases z with
      | nil => rfl
      | cons c z => exact hz
    rcases a with _ | ⟨c, a⟩
    · obtain ⟨-, rfl⟩ := List.cons.inj ha
      exact ⟨[], b ++ ("export default ".toList ++ (q ++ m)), z, [], by simp,
        takes_defaultDeclaration.2 ⟨rfl, b, q, m, rfl, hb, hq, hm, hz', rfl⟩⟩
    · obtain ⟨rfl, rfl⟩ := List.cons.inj ha
      exact ⟨a ++ ['\n'], b ++ ("export default ".toList ++ (q ++ m)), z, [], by simp,
        takes_defaultDeclaration.2 ⟨by simp, b, q, m, rfl, hb, hq, hm, hz', rfl⟩⟩

end LayeredFix.Pass.Hardening
