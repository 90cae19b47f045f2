import LayeredFix.Proofs.Hardening.Member
import Mathlib.Logic.Relation

/-!
# Interfaces with terminated members

A match of the pattern for interfaces is cut in one way only (`hit?_interfaceBody`), and matches do not overlap. So after
all interfaces have been gone through, the members of every interface of the text are terminated (`allEnded_replaceFrom`),
and the repair leaves such a text alone.

What the repair does to the rest of the text is said step by step: blanks at the end of a line between braces become a
semicolon (`Ends`). What one such step preserves the whole repair preserves (`ends_fixInterfaceSemicolons`).
-/

namespace LayeredFix.Pass.Hardening

open Pattern
open Relation (ReflTransGen)

variable {behind w rest t t' : Text} {g : List (Nat × Text)} {h : Hit}

/-! ### Interfaces -/

/-- The head of an interface, up to its brace. -/
def IsHead (n : Text) : Prop := ∃ b name b', n = "interface".toList ++ (b ++ (name ++ b')) ∧
  (b ≠ [] ∧ ∀ c ∈ b, Text.isBlank c = true) ∧ (name ≠ [] ∧ ∀ c ∈ name, Text.isWord c = true) ∧
  ∀ c ∈ b', Text.isBlank c = true

theorem IsHead.wordOrBlank {n : Text} (hn : IsHead n) : ∀ c ∈ n, Text.isWord c = true ∨ Text.isBlank c = true := by
  obtain ⟨b, name, b', rfl, hb, hname, hb'⟩ := hn
  have hword : ∀ c ∈ "interface".toList, Text.isWord c = true := by decide
  simp only [List.forall_mem_append]
  exact ⟨fun c hc => Or.inl (hword c hc), fun c hc => Or.inr (hb.2 c hc), fun c hc => Or.inl (hname.2 c hc),
    fun c hc => Or.inr (hb' c hc)⟩

theorem IsHead.notMem {n : Text} (hn : IsHead n) : '\x7b' ∉ n ∧ '\x7d' ∉ n ∧ ';' ∉ n := by
  have hall : ∀ c ∈ ['\x7b', '\x7d', ';'], Text.isWord c = false ∧ Text.isBlank c = false := by decide
  have hno {c : Char} (hc : c ∈ ['\x7b', '\x7d', ';']) : c ∉ n := fun hmem => by
    rcases hn.wordOrBlank c hmem with h | h
    · exact absurd (h.symm.trans (hall c hc).1) (by decide)
    · exact absurd (h.symm.trans (hall c hc).2) (by decide)
  exact ⟨hno (by simp), hno (by simp), hno (by simp)⟩

theorem notMem_of_isFlat {b : Text} (hb : ∀ c ∈ b, isFlat c = true) : '\x7b' ∉ b ∧ '\x7d' ∉ b :=
  ⟨fun hmem => absurd (hb _ hmem) (by decide), fun hmem => absurd (hb _ hmem) (by decide)⟩

/-- An interface without nested braces begins the text. -/
def Opens (t : Text) (n b z : Text) : Prop :=
  t = n ++ '\x7b' :: (b ++ '\x7d' :: z) ∧ IsHead n ∧ ∀ c ∈ b, isFlat c = true

theorem Opens.unique {n b z n' b' z' : Text} (ho : Opens t n b z) (ho' : Opens t n' b' z') : n = n' ∧ b = b' ∧ z = z' := by
  obtain ⟨heq, hn, hb⟩ := ho
  obtain ⟨heq', hn', hb'⟩ := ho'
  obtain ⟨rfl, hbody⟩ := Text.cut_unique (heq.symm.trans heq') hn.notMem.1 hn'.notMem.1
  exact ⟨rfl, Text.cut_unique hbody (notMem_of_isFlat hb).2 (notMem_of_isFlat hb').2⟩

theorem takes_interfaceBody : interfaceBody.Takes behind [] w rest g ↔ behind.head?.any Text.isWord = false ∧
    ∃ n b, Opens (w ++ rest) n b rest ∧ g = [(3, ['\x7d']), (2, b), (1, n ++ ['\x7b'])] := by
  have hedge {u : Text} : behind.head?.any Text.isWord ≠ ("interface".toList ++ u).head?.any Text.isWord ↔
      behind.head?.any Text.isWord = false := by
    have hword : ("interface".toList ++ u).head?.any Text.isWord = true := by
      have hi : Text.isWord 'i' = true := by decide
      exact hi
    rw [hword, ne_eq, Bool.not_eq_true]
  constructor
  · rintro ⟨u, v, _, rfl, ⟨_, hhead, rfl⟩, b, _, _, rfl, ⟨_, ⟨hb, rfl⟩, rfl⟩, _, ⟨rfl, rfl⟩, rfl⟩
    simp only [Pattern.all, takes_seq_edge, takes_seq_text, blanks, blanks1, word, plain_some1.takes_seq,
      plain_many.takes_seq] at hhead
    obtain ⟨hbehind, _, rfl, s, _, rfl, hs, name, _, rfl, hname, s', _, rfl, hs', rfl, rfl⟩ := hhead
    rw [List.append_assoc, hedge] at hbehind
    exact ⟨hbehind, "interface".toList ++ (s ++ (name ++ s')), b, ⟨by simp, ⟨s, name, s', rfl, hs, hname, hs'⟩, hb⟩,
      by simp⟩
  · rintro ⟨hbehind, n, b, ⟨heq, ⟨s, name, s', rfl, hs, hname, hs'⟩, hb⟩, rfl⟩
    have hw : w = ("interface".toList ++ (s ++ (name ++ (s' ++ "\x7b".toList)))) ++ (b ++ "\x7d".toList) := by
      refine List.append_cancel_right (heq.trans ?_)
      simp
    refine ⟨_, _, _, hw, ⟨[], ?_, rfl⟩, b, _, _, rfl, ⟨_, ⟨hb, rfl⟩, rfl⟩, _, ⟨rfl, rfl⟩, by simp⟩
    simp only [Pattern.all, takes_seq_edge, takes_seq_text, blanks, blanks1, word, plain_some1.takes_seq,
      plain_many.takes_seq]
    refine ⟨?_, _, rfl, s, _, rfl, hs, name, _, rfl, hname, s', _, rfl, hs', rfl, rfl⟩
    rw [List.append_assoc, hedge]
    exact hbehind

/-- **A match is an interface**, and there is one wherever an interface begins. -/
theorem hit?_interfaceBody : interfaceBody.hit? behind t = some h ↔ behind.head?.any Text.isWord = false ∧
    ∃ n b z, Opens t n b z ∧
      h = ⟨n ++ '\x7b' :: (b ++ ['\x7d']), [(3, ['\x7d']), (2, b), (1, n ++ ['\x7b'])]⟩ := by
  have hshape {h : Hit} (hh : interfaceBody.hit? behind t = some h) : behind.head?.any Text.isWord = false ∧
      ∃ n b z, Opens t n b z ∧
        h = ⟨n ++ '\x7b' :: (b ++ ['\x7d']), [(3, ['\x7d']), (2, b), (1, n ++ ['\x7b'])]⟩ := by
    obtain ⟨rest, rfl, htakes⟩ := takes_of_hit? hh
    obtain ⟨hbehind, n, b, ho, hg⟩ := takes_interfaceBody.1 htakes
    have htext : h.text = n ++ '\x7b' :: (b ++ ['\x7d']) := by
      refine List.append_cancel_right (ho.1.trans ?_)
      simp
    obtain ⟨text, groups⟩ := h
    obtain rfl : text = _ := htext
    obtain rfl : groups = _ := hg
    exact ⟨hbehind, n, b, rest, ho, rfl⟩
  refine ⟨hshape, ?_⟩
  rintro ⟨hbehind, n, b, z, ho, rfl⟩
  have hcut : t = (n ++ '\x7b' :: (b ++ ['\x7d'])) ++ z := by
    rw [ho.1]
    simp
  have htakes : interfaceBody.Takes behind [] (n ++ '\x7b' :: (b ++ ['\x7d'])) z
      [(3, ['\x7d']), (2, b), (1, n ++ ['\x7b'])] :=
    takes_interfaceBody.2 ⟨hbehind, n, b, hcut ▸ ho, rfl⟩
  obtain ⟨h, hh⟩ := exists_hit? htakes
  rw [← hcut] at hh
  obtain ⟨-, n', b', z', ho', rfl⟩ := hshape hh
  obtain ⟨rfl, rfl, -⟩ := ho.unique ho'
  exact hh

/-! ### One step -/

/-- Blanks at the end of a line between braces, or nothing, become a semicolon. -/
inductive Ends : Text → Text → Prop where
  /-- In front of them stands `c`, and the next brace closes. -/
  | intro {u y v z : Text} {c : Char} (hc : IsLast c) (hy : ∀ d ∈ y, Text.isSpaceOrTab d = true)
      (hv : ∀ d ∈ v, isFlat d = true) (hline : v.head?.all (· == '\n') = true) :
      Ends (u ++ c :: (y ++ (v ++ '\x7d' :: z))) (u ++ c :: ';' :: (v ++ '\x7d' :: z))

theorem Ends.append_left (p : Text) (he : Ends t t') : Ends (p ++ t) (p ++ t') := by
  obtain ⟨hc, hy, hv, hline⟩ := he
  rename_i u y v z c
  simpa only [List.append_assoc] using Ends.intro (u := p ++ u) (z := z) hc hy hv hline

theorem isFlat_of_isSpaceOrTab {y : Text} (hy : ∀ d ∈ y, Text.isSpaceOrTab d = true) : ∀ d ∈ y, isFlat d = true := by
  intro d hd
  rcases Bool.or_eq_true_iff.1 (hy d hd) with h | h
  · obtain rfl := beq_iff_eq.1 h
    decide
  · obtain rfl := beq_iff_eq.1 h
    decide

/-- A step begins no interface. -/
theorem Ends.opens {n b z : Text} (he : Ends t t') (ho : Opens t' n b z) : ∃ b' z', Opens t n b' z' := by
  obtain ⟨heq, hn, hb⟩ := ho
  obtain ⟨hc, hy, hv, -⟩ := he
  rename_i u y v z' c
  -- The brace of the interface stands in front of the semicolon.
  obtain ⟨k, hk⟩ : n ++ ['\x7b'] <+: u ++ [c] := by
    refine Text.prefix_of_notMem (v := v ++ '\x7d' :: z') (d := ';') ⟨b ++ '\x7d' :: z, ?_⟩ ?_
    · rw [List.append_assoc u, List.singleton_append, heq]
      simp
    · rw [List.mem_append, not_or]
      exact ⟨hn.notMem.2.2, by decide⟩
  have hold : u ++ c :: (y ++ (v ++ '\x7d' :: z')) = n ++ '\x7b' :: (k ++ (y ++ (v ++ '\x7d' :: z'))) := by
    rw [List.append_cons u, ← hk]
    simp
  have hnew : b ++ '\x7d' :: z = k ++ ';' :: (v ++ '\x7d' :: z') := by
    rw [List.append_cons u, ← hk] at heq
    simpa using heq.symm
  rw [hold]
  by_cases hclose : '\x7d' ∈ k
  · obtain ⟨k, k', rfl, hk'⟩ := List.eq_append_cons_of_mem hclose
    rw [List.append_assoc, List.cons_append] at hnew
    obtain ⟨rfl, -⟩ := Text.cut_unique hnew (notMem_of_isFlat hb).2 hk'
    exact ⟨b, k' ++ (y ++ (v ++ '\x7d' :: z')), by simp, hn, hb⟩
  · have hbody : b = k ++ ';' :: v := by
      have hcut : b ++ '\x7d' :: z = (k ++ ';' :: v) ++ '\x7d' :: z' := by
        rw [hnew]
        simp
      refine (Text.cut_unique hcut (notMem_of_isFlat hb).2 ?_).1
      rw [List.mem_append, List.mem_cons, not_or, not_or]
      exact ⟨hclose, by decide, (notMem_of_isFlat hv).2⟩
    rw [hbody] at hb
    simp only [List.forall_mem_append, List.forall_mem_cons] at hb
    refine ⟨k ++ (y ++ v), z', by simp, hn, ?_⟩
    simp only [List.forall_mem_append]
    exact ⟨hb.1, isFlat_of_isSpaceOrTab hy, hv⟩

theorem opens_of_ends {n b z : Text} (he : ReflTransGen Ends t t') (ho : Opens t' n b z) : ∃ b' z', Opens t n b' z' := by
  induction he using ReflTransGen.head_induction_on with
  | refl => exact ⟨b, z, ho⟩
  | head hstep _ ih =>
    obtain ⟨b', z', ho'⟩ := ih
    exact hstep.opens ho'

/-! ### Step by step -/

/-- The lines of a body are terminated step by step. -/
theorem ends_lines {z : Text} : ∀ (ls : List Text) (p : Text), (∀ l ∈ ls, '\n' ∉ l) →
    (∀ c ∈ Text.unlines ls, isFlat c = true) →
    ReflTransGen Ends (p ++ (Text.unlines ls ++ '\x7d' :: z)) (p ++ (Text.unlines (ls.map endMember) ++ '\x7d' :: z)) := by
  have hline {l v p : Text} (hl : '\n' ∉ l) (hv : ∀ c ∈ v, isFlat c = true)
      (hstart : v.head?.all (· == '\n') = true) :
      ReflTransGen Ends (p ++ (l ++ (v ++ '\x7d' :: z))) (p ++ (endMember l ++ (v ++ '\x7d' :: z))) := by
    rcases endMember_cases hl with ⟨-, heq⟩ | ⟨m, ⟨hm, -, y, rfl, hy⟩, heq⟩
    · rw [heq]
    · obtain ⟨u, c, rfl, hc⟩ := hm.last
      rw [heq]
      have hstep := Ends.intro (u := p ++ u) (z := z) hc hy hv hstart
      simp only [List.append_assoc, List.cons_append, List.nil_append] at hstep ⊢
      exact .single hstep
  intro ls
  induction ls with
  | nil => exact fun p _ _ => .refl
  | cons l ls ih =>
    intro p hls hflat
    rw [List.forall_mem_cons] at hls
    cases ls with
    | nil =>
      rw [List.map_singleton, Text.unlines_singleton, Text.unlines_singleton]
      exact hline (v := []) hls.1 (by simp) rfl
    | cons l' ls =>
      rw [Text.unlines_cons_cons, List.forall_mem_append, List.forall_mem_cons] at hflat
      have hrest := ih (p ++ (endMember l ++ ['\n'])) hls.2 hflat.2.2
      have hfirst := hline (p := p) hls.1 (v := '\n' :: Text.unlines (l' :: ls)) (List.forall_mem_cons.2 hflat.2) rfl
      rw [List.map_cons] at hrest
      rw [List.map_cons, List.map_cons, Text.unlines_cons_cons, Text.unlines_cons_cons]
      simp only [List.append_assoc, List.cons_append, List.nil_append] at hrest hfirst ⊢
      exact hfirst.trans hrest

theorem ends_terminateMembers {p b z : Text} (hb : ∀ c ∈ b, isFlat c = true) :
    ReflTransGen Ends (p ++ (b ++ '\x7d' :: z)) (p ++ (terminateMembers b ++ '\x7d' :: z)) := by
  have h := ends_lines (z := z) (Text.lines b) p (fun _ => Text.notMem_of_mem_lines) (by rwa [Text.unlines_lines])
  rwa [Text.unlines_lines, ← terminateMembers_eq] at h

/-- An interface with its members terminated. -/
def ended (h : Hit) : Text := h.group 1 ++ terminateMembers (h.group 2) ++ h.group 3

theorem fixInterfaceSemicolons_eq (t : Text) : fixInterfaceSemicolons t = interfaceBody.replaceFrom ended [] t :=
  replace_eq interfaceBody ended t

theorem ended_hit (n b : Text) :
    ended ⟨n ++ '\x7b' :: (b ++ ['\x7d']), [(3, ['\x7d']), (2, b), (1, n ++ ['\x7b'])]⟩ =
      n ++ '\x7b' :: (terminateMembers b ++ ['\x7d']) := by
  show (n ++ ['\x7b']) ++ terminateMembers b ++ ['\x7d'] = _
  simp

/-- Where an interface begins, it is ended, and the repair goes on behind it. -/
theorem replaceFrom_interface {n b z : Text} (hbehind : behind.head?.any Text.isWord = false) (ho : Opens t n b z) :
    interfaceBody.replaceFrom ended behind t = n ++ '\x7b' :: (terminateMembers b ++ '\x7d' ::
      interfaceBody.replaceFrom ended ((n ++ '\x7b' :: (b ++ ['\x7d'])).reverse ++ behind) z) := by
  have hcut : t = (n ++ '\x7b' :: (b ++ ['\x7d'])) ++ z := by
    rw [ho.1]
    simp
  have hhit := hit?_interfaceBody.2 ⟨hbehind, n, b, z, ho, rfl⟩
  rw [hcut] at hhit ⊢
  have heq := replaceFrom_of_some (p := interfaceBody) (f := ended)
    (h := ⟨n ++ '\x7b' :: (b ++ ['\x7d']), [(3, ['\x7d']), (2, b), (1, n ++ ['\x7b'])]⟩) hhit (by simp)
  rw [ended_hit] at heq
  simpa using heq

/-- A text in which no interface begins at `c` is passed over up to there. -/
theorem interface_induction {motive : Text → Text → Prop} (nil : ∀ behind, motive behind [])
    (pass : ∀ behind c t, (∀ n b z, behind.head?.any Text.isWord = false → ¬ Opens (c :: t) n b z) →
      motive (c :: behind) t → motive behind (c :: t))
    (stop : ∀ behind n b z, behind.head?.any Text.isWord = false → IsHead n → (∀ c ∈ b, isFlat c = true) →
      motive ((n ++ '\x7b' :: (b ++ ['\x7d'])).reverse ++ behind) z → motive behind (n ++ '\x7b' :: (b ++ '\x7d' :: z)))
    (behind t : Text) : motive behind t := by
  fun_induction replaceFrom interfaceBody ended behind t with
  | case1 behind => exact nil behind
  | case2 behind c t hn ih =>
    refine pass behind c t (fun n b z hbehind ho => ?_) ih
    rw [hit?_interfaceBody.2 ⟨hbehind, n, b, z, ho, rfl⟩] at hn
    cases hn
  | case3 behind c t h hh hempty ih =>
    obtain ⟨-, n, b, z, -, rfl⟩ := hit?_interfaceBody.1 hh
    simp at hempty
  | case4 behind c t h hh hne ih =>
    have hcut : c :: t = h.text ++ t.drop (h.text.length - 1) :=
      text_hit?_cons hh fun hnil => hne (List.isEmpty_iff.2 hnil)
    obtain ⟨hbehind, n, b, z, ⟨heq, hn, hb⟩, rfl⟩ := hit?_interfaceBody.1 hh
    have hz : t.drop ((n ++ '\x7b' :: (b ++ ['\x7d'])).length - 1) = z := by
      rw [heq] at hcut
      simpa using hcut.symm
    rw [heq]
    exact stop behind n b z hbehind hn hb (hz ▸ ih)

theorem replaceFrom_pass {c : Char} (hno : ∀ n b z, behind.head?.any Text.isWord = false → ¬ Opens (c :: t) n b z) :
    interfaceBody.replaceFrom ended behind (c :: t) = c :: interfaceBody.replaceFrom ended (c :: behind) t := by
  refine replaceFrom_cons_of_none (Option.eq_none_iff_forall_ne_some.2 fun h hh => ?_)
  obtain ⟨hbehind, n, b, z, ho, -⟩ := hit?_interfaceBody.1 hh
  exact hno n b z hbehind ho

theorem ends_replaceFrom (behind t : Text) :
    ∀ p, ReflTransGen Ends (p ++ t) (p ++ interfaceBody.replaceFrom ended behind t) := by
  induction behind, t using interface_induction with
  | nil => simp [ReflTransGen.refl]
  | pass behind c t hno ih =>
    intro p
    rw [replaceFrom_pass hno]
    simpa using ih (p ++ [c])
  | stop behind n b z hbehind hn hb ih =>
    intro p
    rw [replaceFrom_interface hbehind ⟨rfl, hn, hb⟩]
    have hbody := ends_terminateMembers (p := p ++ (n ++ ['\x7b'])) (z := z) hb
    have hrest := ih (p ++ (n ++ '\x7b' :: (terminateMembers b ++ ['\x7d'])))
    simp only [List.append_assoc, List.cons_append, List.nil_append] at hbody hrest
    exact hbody.trans hrest

/-- **The repair of interfaces is a sequence of steps.** -/
theorem ends_fixInterfaceSemicolons (t : Text) : ReflTransGen Ends t (fixInterfaceSemicolons t) := by
  rw [fixInterfaceSemicolons_eq]
  exact ends_replaceFrom [] t []

/-! ### At rest -/

/-- All members of the interfaces of a text are terminated, where `behind` has been read. -/
def AllEnded (behind t : Text) : Prop := ∀ u v n b z, t = u ++ v → (u.reverse ++ behind).head?.any Text.isWord = false →
  Opens v n b z → terminateMembers b = b

theorem AllEnded.cons {c : Char} (hfirst : ∀ n b z, behind.head?.any Text.isWord = false → Opens (c :: t) n b z →
    terminateMembers b = b) (hrest : AllEnded (c :: behind) t) : AllEnded behind (c :: t) := by
  intro u v n b z heq hbehind ho
  rcases u with _ | ⟨c', u⟩
  · obtain rfl : c :: t = v := heq
    exact hfirst n b z hbehind ho
  · obtain ⟨rfl, rfl⟩ := List.cons.inj heq
    exact hrest u v n b z rfl (by simpa using hbehind) ho

theorem fixInterfaceSemicolons_of_allEnded (h : AllEnded [] t) : fixInterfaceSemicolons t = t := by
  rw [fixInterfaceSemicolons_eq]
  refine replaceFrom_of_fixed fun u v hit heq hh => ?_
  obtain ⟨hbehind, n, b, z, ho, rfl⟩ := hit?_interfaceBody.1 hh
  rw [ended_hit, h u v n b z heq hbehind ho]

theorem isFlat_terminateMembers {b : Text} (hb : ∀ c ∈ b, isFlat c = true) : ∀ c ∈ terminateMembers b, isFlat c = true := by
  intro c hc
  rw [terminateMembers_eq] at hc
  rcases Text.mem_unlines hc with rfl | ⟨l, hl, hc⟩
  · decide
  · obtain ⟨l, hl', rfl⟩ := List.mem_map.1 hl
    have hline : ∀ c ∈ l, isFlat c = true := fun c hc => hb c ((Text.infix_of_mem_lines hl').subset hc)
    rcases endMember_cases (Text.notMem_of_mem_lines hl') with ⟨-, heq⟩ | ⟨m, ⟨-, -, y, rfl, -⟩, heq⟩
    · exact hline c (heq ▸ hc)
    · rw [heq, List.mem_append, List.mem_singleton] at hc
      rcases hc with hc | rfl
      · exact hline c (List.mem_append_left y hc)
      · decide

/-- Inside an interface no other one begins. -/
theorem Opens.in_interface {n b z u v n' b' z' : Text} (hn : IsHead n) (hb : ∀ c ∈ b, isFlat c = true)
    (heq : n ++ '\x7b' :: (b ++ '\x7d' :: z) = u ++ v) (ho : Opens v n' b' z') :
    b' = b ∨ ∃ k, u = n ++ '\x7b' :: (b ++ '\x7d' :: k) ∧ z = k ++ v := by
  obtain ⟨hv, hn', hb'⟩ := ho
  -- Between the braces no interface begins, since the next brace closes.
  have hinside {k : Text} (hk : ∀ c ∈ k, isFlat c = true) : v ≠ k ++ '\x7d' :: z := by
    rintro rfl
    have hpre : n' ++ ['\x7b'] <+: k ++ '\x7d' :: z := ⟨b' ++ '\x7d' :: z', by rw [hv]; simp⟩
    have hclose : '\x7d' ∉ n' ++ ['\x7b'] := by
      rw [List.mem_append, not_or]
      exact ⟨hn'.notMem.2.1, by decide⟩
    exact (notMem_of_isFlat hk).1 ((Text.prefix_of_notMem hpre hclose).subset (by simp))
  have hhead {k : Text} (hk : '\x7b' ∉ k) (hvk : v = k ++ '\x7b' :: (b ++ '\x7d' :: z)) : b' = b := by
    obtain ⟨-, hbody⟩ := Text.cut_unique (hv.symm.trans hvk) hn'.notMem.1 hk
    exact (Text.cut_unique hbody (notMem_of_isFlat hb').2 (notMem_of_isFlat hb).2).1
  rcases List.append_eq_append_iff.1 heq with ⟨k, rfl, hk⟩ | ⟨k, rfl, hk⟩
  · rcases k with _ | ⟨c, k⟩
    · exact Or.inl (hhead (k := []) (by simp) hk.symm)
    · obtain ⟨rfl, hbody⟩ := List.cons.inj hk
      rcases List.append_eq_append_iff.1 hbody with ⟨k', rfl, hk'⟩ | ⟨k', rfl, hk'⟩
      · rcases k' with _ | ⟨c, k'⟩
        · exact absurd hk'.symm (hinside (k := []) (by simp))
        · obtain ⟨rfl, rfl⟩ := List.cons.inj hk'
          exact Or.inr ⟨k', rfl, rfl⟩
      · exact absurd hk' (hinside fun c hc => hb c (List.mem_append_right k hc))
  · exact Or.inl (hhead (fun hmem => hn.notMem.1 (List.mem_append_right u hmem)) hk)

/-- Inside an ended interface none begins that is not. -/
theorem AllEnded.interface {n b z : Text} (hn : IsHead n) (hb : ∀ c ∈ b, isFlat c = true) (hended : terminateMembers b = b)
    (hrest : AllEnded ((n ++ '\x7b' :: (b ++ ['\x7d'])).reverse ++ behind) z) :
    AllEnded behind (n ++ '\x7b' :: (b ++ '\x7d' :: z)) := by
  intro u v n' b' z' heq hbehind ho
  rcases ho.in_interface hn hb heq with rfl | ⟨k, rfl, hz⟩
  · exact hended
  · exact hrest k v n' b' z' hz (by simpa using hbehind) ho

/-- Of what has been read only the last character counts. -/
theorem AllEnded.congr {behind' : Text} (hlast : behind.head?.any Text.isWord = behind'.head?.any Text.isWord)
    (h : AllEnded behind t) : AllEnded behind' t := by
  intro u v n b z heq hbehind ho
  refine h u v n b z heq ?_ ho
  rcases List.eq_nil_or_concat u with rfl | ⟨u, c, rfl⟩
  · exact hlast.trans hbehind
  · simpa using hbehind

theorem allEnded_replaceFrom (behind t : Text) : AllEnded behind (interfaceBody.replaceFrom ended behind t) := by
  induction behind, t using interface_induction with
  | nil behind =>
    rw [replaceFrom_nil]
    rintro u v n b z heq - ⟨hv, -⟩
    obtain ⟨rfl, rfl⟩ := List.append_eq_nil_iff.1 heq.symm
    simp at hv
  | pass behind c t hno ih =>
    rw [replaceFrom_pass hno]
    refine ih.cons fun n b z hbehind ho => ?_
    obtain ⟨b', z', ho'⟩ := opens_of_ends (ends_replaceFrom (c :: behind) t [c]) ho
    exact absurd ho' (hno n b' z' hbehind)
  | stop behind n b z hbehind hn hb ih =>
    rw [replaceFrom_interface hbehind ⟨rfl, hn, hb⟩]
    exact .interface hn (isFlat_terminateMembers hb) (terminateMembers_idempotent b) (ih.congr (by simp))

/-- **After the repair all members are terminated.** -/
theorem allEnded_fixInterfaceSemicolons (t : Text) : AllEnded [] (fixInterfaceSemicolons t) := by
  rw [fixInterfaceSemicolons_eq]
  exact allEnded_replaceFrom [] t

theorem fixInterfaceSemicolons_idempotent (t : Text) :
    fixInterfaceSemicolons (fixInterfaceSemicolons t) = fixInterfaceSemicolons t :=
  fixInterfaceSemicolons_of_allEnded (allEnded_fixInterfaceSemicolons t)

end LayeredFix.Pass.Hardening
