import LayeredFix.Proofs.Convention.Leading
import LayeredFix.Proofs.Guard.Settling

/-!
# Host guards and the mark that leads a text

Guarding a reference spells it in another way that is not read where the first line of code is looked for
(`IsGuarding.unread`). The flag is put in where its words stand: in front of a declaration of state and in the place of the
beginning of a return. If these places are behind the line of the mark or inside of a block comment (`Steady`), the mark
still leads the text (`addMountedState_leads`).

The passes are followed behind a front that they do not touch (`IsFront`): the import of hooks, or nothing.
-/

namespace LayeredFix.Pass.Guard

open Pattern Convention
open Text (Respelled)

/-! ### References -/

/-- A reference, and the reference with the test in front of it. -/
def IsGuarding (w w' : Text) : Prop := ∃ r ∈ hostRules, w = r.reference.toList ∧ w' = r.guarded

theorem IsGuarding.unread {w w' : Text} (h : IsGuarding w w') : Unread w w' := by
  have hall : ∀ r ∈ hostRules, r.reference.toList.head?.any (fun c => !Text.isBlank c) = true ∧ r.guarded ≠ [] ∧
      (∀ c ∈ "\n*/".toList, c ∉ r.reference.toList ∧ c ∉ r.guarded) ∧ '.' ∈ r.reference.toList := by decide +kernel
  obtain ⟨r, hr, rfl, rfl⟩ := h
  obtain ⟨hhead, hne, hinner, hdot⟩ := hall r hr
  refine ⟨?_, hne, hinner, '.', by decide, hdot⟩
  generalize r.reference.toList = w at hhead
  cases w with
  | nil => cases hhead
  | cons c v => exact ⟨c, v, rfl, by simpa using hhead⟩

/-! ### Where the flag is put in -/

/-- The words that the flag is put in front of, or in the place of. -/
inductive FlagWord : Text → Prop where
  /-- A declaration of state begins. -/
  | declaration : FlagWord "const [".toList
  /-- A return begins. -/
  | render {blanks : Text} (h : ∀ c ∈ blanks, Text.isBlank c = true) : FlagWord ("return".toList ++ blanks ++ ['('])

/-- No guard reaches into one of these words. -/
theorem FlagWord.shape {x : Text} (h : FlagWord x) : ∃ y d, x = y ++ [d] ∧
    ∀ w w', IsGuarding w w' → d ∉ w' ∧ ∃ v e, w' = v ++ [e] ∧ e ∉ y := by
  have hall : ∀ r ∈ hostRules, '[' ∉ r.guarded ∧ '(' ∉ r.guarded := by decide +kernel
  have hdot {y : Text} (hy : '.' ∉ y) {w w' : Text} (hw : IsGuarding w w') : ∃ v e, w' = v ++ [e] ∧ e ∉ y := by
    obtain ⟨r, hr, rfl, rfl⟩ := hw
    obtain ⟨body, heq, -⟩ := guarded_shape hr
    exact ⟨"typeof".toList ++ ' ' :: body, '.', by rw [heq]; simp, hy⟩
  cases h with
  | declaration =>
    refine ⟨"const ".toList, '[', by decide, fun w w' hw => ⟨?_, hdot (by decide) hw⟩⟩
    obtain ⟨r, hr, rfl, rfl⟩ := hw
    exact (hall r hr).1
  | @render blanks hblanks =>
    refine ⟨"return".toList ++ blanks, '(', rfl, fun w w' hw => ⟨?_, hdot ?_ hw⟩⟩
    · obtain ⟨r, hr, rfl, rfl⟩ := hw
      exact (hall r hr).2
    · rw [List.mem_append, not_or]
      exact ⟨by decide, fun hmem => absurd (hblanks _ hmem) (by decide)⟩

/-- The mark leads the text, and the flag can be put in only where it makes no difference to that. -/
structure Steady (t : Text) : Prop where
  /-- The mark leads the text. -/
  led : leads t = true
  /-- The words of the flag stand where more may be put in. -/
  sheltered : ∀ a x z, t = a ++ (x ++ z) → FlagWord x → Sheltered a

theorem Steady.respelled {t t' : Text} (h : Respelled IsGuarding t t') (ht : Steady t) : Steady t' where
  led := leads_respelled (h.mono fun _ _ hw => hw.unread) ht.led
  sheltered a' x z' heq hx := by
    obtain ⟨y, d, rfl, hy⟩ := hx.shape
    rw [heq, List.append_assoc, List.singleton_append] at h
    obtain ⟨a, z, rfl, ha⟩ := h.split hy
    exact (ht.sheltered a (y ++ [d]) z (by simp) hx).respelled (ha.mono fun _ _ hw => hw.unread)

theorem inert_mountedState : Inert mountedState := ⟨by decide, 'c', mountedState.tail, rfl, by decide⟩

theorem inert_mountedRender : Inert mountedRender := ⟨by decide, 'i', mountedRender.tail, rfl, by decide⟩

theorem FlagWord.inert {x : Text} (h : FlagWord x) : Inert x := by
  cases h with
  | declaration => exact ⟨by decide, 'c', "onst [".toList, by decide, by decide⟩
  | @render blanks hblanks =>
    refine ⟨?_, 'r', "eturn".toList ++ blanks ++ ['('], by simp, by decide⟩
    rw [List.mem_append, List.mem_append, not_or, not_or]
    exact ⟨⟨by decide, fun hmem => absurd (hblanks _ hmem) (by decide)⟩, by decide⟩

/-- Once the flag is declared in front of a declaration of state, returns stand where they may be exchanged. -/
theorem Steady.flagged {a z : Text} (h : Steady (a ++ ("const [".toList ++ z))) :
    leads (a ++ (mountedState ++ ("const [".toList ++ z))) = true ∧
      ∀ u blanks v, a ++ (mountedState ++ ("const [".toList ++ z)) = u ++ (("return".toList ++ blanks ++ ['(']) ++ v) →
        (∀ c ∈ blanks, Text.isBlank c = true) → Sheltered u := by
  have ha : Sheltered a := h.sheltered a _ z rfl .declaration
  refine ⟨ha.insert inert_mountedState (FlagWord.declaration.inert.head?_append z) h.led, ?_⟩
  intro u blanks v heq hblanks
  have hrender := FlagWord.render hblanks
  have hc : 'c' ∉ "return".toList ++ blanks ++ ['('] := by
    rw [List.mem_append, List.mem_append, not_or, not_or]
    exact ⟨⟨by decide, fun hmem => absurd (hblanks _ hmem) (by decide)⟩, by decide⟩
  generalize "return".toList ++ blanks ++ ['('] = x at heq hrender hc
  rcases List.append_eq_append_iff.1 heq with ⟨k, rfl, hk⟩ | ⟨k, rfl, hk⟩
  · rcases List.append_eq_append_iff.1 hk with ⟨k', rfl, hk'⟩ | ⟨k', hk', -⟩
    · -- The return stands behind the declaration of the flag.
      have hhead : k'.head? ≠ some '/' := fun hslash => FlagWord.declaration.inert.head?_append z (by
        rw [hk', List.head?_append, hslash]
        rfl)
      refine ha.behind inert_mountedState hhead (h.sheltered (a ++ k') x v ?_ hrender)
      rw [List.append_assoc, hk']
    · -- None stands in the declaration of the flag, but one would do no harm.
      rcases k with _ | ⟨d, k⟩
      · rwa [List.append_nil]
      · have hd : d = 'c' := (List.cons.inj hk').1.symm
        have hstar : '*' ∉ d :: k := fun hmem =>
          inert_mountedState.star (hk' ▸ List.mem_append_left k' hmem)
        have hinert : Inert (d :: k) := ⟨hstar, d, k, rfl, by rw [hd]; decide⟩
        have hnil : Sheltered (a ++ []) := by rwa [List.append_nil]
        simpa using ha.behind hinert (by simp) hnil
  · -- A return that begins in front of the declaration ends there, as it does not hold its first letter.
    have hstate : mountedState = 'c' :: mountedState.tail := rfl
    rw [hstate, List.cons_append] at hk
    obtain ⟨k', rfl⟩ := Text.prefix_of_notMem ⟨v, hk⟩ hc
    exact h.sheltered u x (k' ++ ("const [".toList ++ z)) (by simp only [List.append_assoc]) hrender

/-! ### Behind a front -/

/-- Nothing, or lines without the characters by which references, tags and the words of the flag are told. -/
def IsFront (front : Text) : Prop := front = [] ∨ ∃ g, front = g ++ ['\n'] ∧ ∀ c ∈ ".<n".toList, c ∉ g

section
variable {front x : Text} (hfront : IsFront front) {n : Char} (hn : n ∈ ".<n".toList) (hx : n ∈ x) (hline : '\n' ∉ x)
include hfront hn hx hline

/-- A match that begins with such a word begins behind the front. -/
theorem IsFront.skips {p : Pattern} (hp : ∀ behind t h, p.hit? behind t = some h → x <+: h.text) (t : Text) :
    p.Skips [] front t := by
  rcases hfront with rfl | ⟨g, rfl, hg⟩
  · exact Skips.nil
  · exact skips_of_word hp hx hline (hg n hn) [] t

/-- So does the word itself. -/
theorem IsFront.cut {t a z : Text} (h : front ++ t = a ++ (x ++ z)) : ∃ u, a = front ++ u ∧ t = u ++ (x ++ z) := by
  rcases List.append_eq_append_iff.1 h with h | ⟨k, rfl, hk⟩
  · exact h
  rcases List.eq_nil_or_concat k with rfl | ⟨k, d, rfl⟩
  · exact ⟨[], by simp, by simpa using hk.symm⟩
  · rw [List.concat_eq_append, ← List.append_assoc] at hfront
    rcases hfront with hnil | ⟨g, heq, hg⟩
    · simp at hnil
    · obtain ⟨rfl, hd⟩ := List.append_inj' heq rfl
      rw [List.singleton_inj.1 hd, List.concat_eq_append, List.append_assoc, List.singleton_append] at hk
      have hin : x <+: k := Text.prefix_of_notMem ⟨z, hk⟩ hline
      exact absurd (List.mem_append_right a (hin.subset hx)) (hg n hn)

end

variable {front : Text}

/-- Guards are put in behind the front, and leave a text steady. -/
theorem IsFront.steady_guards (hfront : IsFront front) : Text.KeepsBehind front Steady addEnvironmentGuards := by
  have hall : ∀ r ∈ hostRules, '.' ∈ r.reference.toList ∧ '\n' ∉ r.reference.toList := by decide
  refine Text.keepsBehind_foldl fun r hr t ht => ?_
  have htext {behind t : Text} {h : Hit} (hh : r.pattern.hit? behind t = some h) : h.text = r.reference.toList :=
    HostRule.text_of_hit? hr hh
  have hskips : r.pattern.Skips [] front t := hfront.skips (by decide) (hall r hr).1 (hall r hr).2
    (fun _ _ _ hh => htext hh ▸ List.prefix_rfl) t
  exact ⟨_, replace_append hskips, ht.respelled (Text.respelled_replaceFrom fun _ _ _ hh => ⟨r, hr, htext hh, rfl⟩)⟩

/-- **The flag leaves the mark in the lead.** -/
theorem IsFront.addMountedState_leads (hfront : IsFront front) {t : Text} (ht : Steady t) :
    ∃ t', addMountedState (front ++ t) = front ++ t' ∧ leads t' = true := by
  by_cases hidle : Idle (front ++ t)
  · exact ⟨t, addMountedState_of_idle hidle, ht.led⟩
  obtain ⟨a, z, heq, hflag⟩ := addMountedState_of_not_idle hidle
  obtain ⟨a, rfl, rfl⟩ := hfront.cut (n := 'n') (by decide) (by decide) (by decide) heq
  obtain ⟨hled, hreturns⟩ := ht.flagged
  rw [hflag, List.append_assoc front, List.append_assoc mountedState]
  generalize a ++ (mountedState ++ ("const [".toList ++ z)) = flagged at hled hreturns ⊢
  rcases replaceFirst_mountedRender (front ++ flagged) with hr | ⟨u, blanks, v, hu, hblanks, hr⟩
  · exact ⟨_, hr, hled⟩
  · have hword : front ++ flagged = u ++ ("return".toList ++ (blanks ++ (['('] ++ v))) := by
      rw [hu]
      simp only [List.append_assoc]
    obtain ⟨u, rfl, rfl⟩ := hfront.cut (n := 'n') (by decide) (by decide) (by decide) hword
    have hreturn : u ++ ("return".toList ++ (blanks ++ (['('] ++ v))) = u ++ (("return".toList ++ blanks ++ ['(']) ++ v) := by
      simp only [List.append_assoc]
    rw [hreturn] at hled hreturns
    refine ⟨u ++ (mountedRender ++ v), by rw [hr, List.append_assoc], ?_⟩
    exact (hreturns u blanks v rfl hblanks).exchange (FlagWord.render hblanks).inert inert_mountedRender hled

end LayeredFix.Pass.Guard
