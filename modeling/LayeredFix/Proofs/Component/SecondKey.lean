import LayeredFix.Proofs.Component.KeyedHead
import Mathlib.Logic.Relation

/-!
# Elements get no second key

A rule for keys goes over a text and exchanges the two ends of some matches (`Exchange`). It leaves the head of an element
with a key as it is (`KeyRule.keepsHead`), by induction over what stands in front of it: a character is copied, a match
ends in front of the head, or the head stands in its middle. The rules are applied one after the other, and parameters
that are closed stay so (`Closed.exchange`); so the element gets no second key (`addMissingKeys_keeps_head`).
-/

namespace LayeredFix.Pass.Component

open Pattern
open Relation (ReflTransGen)

/-! ### What stands in front -/

/-- Between the two texts one stretch was exchanged for another. -/
def Exchange (ends : Text → Text → Prop) (a a' : Text) : Prop :=
  ∃ u x x' v, a = u ++ (x ++ v) ∧ a' = u ++ (x' ++ v) ∧ ends x x'

theorem Exchange.append_left {ends : Text → Text → Prop} {a a' : Text} (w : Text) (h : Exchange ends a a') :
    Exchange ends (w ++ a) (w ++ a') := by
  obtain ⟨u, x, x', v, rfl, rfl, hx⟩ := h
  exact ⟨w ++ u, x, x', v, by simp, by simp, hx⟩

/-- The two ends of matches of a rule. -/
def KeyRule.Ends (r : KeyRule) (x x' : Text) : Prop :=
  (Opens x x' ∧ ∃ behind t h, r.pattern.hit? behind (x ++ t) = some h) ∨ Closes x x'

/-- What a rule writes for a match is the match with its ends exchanged. -/
theorem KeyRule.exchange {r : KeyRule} {front front' body back back' v : Text} (hopen : r.Ends front front')
    (hclose : r.Ends back back') :
    ReflTransGen (Exchange r.Ends) (front ++ (body ++ back) ++ v) (front' ++ (body ++ back') ++ v) := by
  have hfirst : Exchange r.Ends (front ++ (body ++ back) ++ v) (front' ++ (body ++ back) ++ v) :=
    ⟨[], front, front', body ++ back ++ v, by simp, by simp, hopen⟩
  have hsecond : Exchange r.Ends (front' ++ (body ++ back) ++ v) (front' ++ (body ++ back') ++ v) :=
    ⟨front' ++ body, back, back', v, by simp, by simp, hclose⟩
  exact .tail (.single hfirst) hsecond

/-- In front of a head and of what follows it a rule exchanges the ends of matches only, and leaves the head as it is. -/
def KeyRule.KeepsHead (r : KeyRule) (o : KeyedHead) (behind a z : Text) : Prop :=
  ∃ a' z', r.pattern.replaceFrom r.write behind (a ++ (o.text ++ z)) = a' ++ (o.text ++ z') ∧
    ReflTransGen (Exchange r.Ends) a a' ∧ (Flat a → a' = a)

namespace KeyRule

variable {r : KeyRule} (hr : r ∈ keyRules) (o : KeyedHead) (harrow : '>' ∉ attributesText o.attributes)

include hr harrow

/-- At the head nothing is changed. -/
theorem keepsHead_nil (hattributes : Closed (attributesText o.attributes)) (behind z : Text) :
    r.KeepsHead o behind [] z := by
  obtain ⟨tail, htail⟩ := o.exists_tail
  unfold KeepsHead
  rw [List.nil_append]
  rcases hhit : r.pattern.hit? behind (o.text ++ z) with _ | h
  · have hskips := o.skips_tail harrow hattributes hr ('.' :: behind) z
    rw [htail, List.cons_append] at hhit
    rw [htail, List.tail_cons] at hskips
    refine ⟨[], r.pattern.replaceFrom r.write (tail.reverse ++ '.' :: behind) z, ?_, .refl, fun _ => rfl⟩
    rw [List.nil_append, htail, List.cons_append, replaceFrom_cons_of_none hhit, replaceFrom_append hskips,
      List.cons_append]
  · obtain ⟨hwrite, m, rest, hm, rfl⟩ := o.write_eq_text harrow hr hhit
    rw [← List.append_assoc, ← hm] at hhit
    have hne : h.text ≠ [] := by
      rw [hm, htail]
      exact List.cons_ne_nil _ _
    refine ⟨[], m ++ r.pattern.replaceFrom r.write (h.text.reverse ++ behind) rest, ?_, .refl, fun _ => rfl⟩
    rw [List.nil_append, ← List.append_assoc, ← hm, replaceFrom_of_some hhit hne, hwrite, hm, List.append_assoc]

omit hr harrow in
/-- A character where no match begins is kept. -/
theorem KeepsHead.cons {c : Char} {behind a z : Text} (hnone : r.pattern.hit? behind (c :: (a ++ (o.text ++ z))) = none)
    (h : r.KeepsHead o (c :: behind) a z) : r.KeepsHead o behind (c :: a) z := by
  obtain ⟨a', z', heq, hsteps, hflat⟩ := h
  refine ⟨c :: a', z', ?_, hsteps.lift (c :: ·) fun _ _ hstep => hstep.append_left [c], fun hc => by rw [hflat hc.tail]⟩
  rw [List.cons_append, replaceFrom_cons_of_none hnone, heq, List.cons_append]

/-- A match that begins in front of the head ends in front of it, or has the head in its middle. -/
theorem keepsHead_of_hit? {behind a z : Text} {h : Hit} (ha : Closed a) (hne : a ≠ [])
    (hh : r.pattern.hit? behind (a ++ (o.text ++ z)) = some h)
    (ih : ∀ a', a'.length < a.length → Closed a' → r.KeepsHead o (h.text.reverse ++ behind) a' z) :
    r.KeepsHead o behind a z := by
  obtain ⟨front, front', body, back, back', htext, hopen, hclose, hwrite⟩ := KeyRule.rewriting hr hh
  obtain ⟨rest, ht⟩ := text_hit? hh
  have hsplit : front ++ (body ++ (back ++ rest)) = a ++ (o.text ++ z) := by
    rw [ht, htext]
    simp only [List.append_assoc]
  have hends : r.Ends front front' := Or.inl ⟨hopen, behind, _, h, by rw [hsplit]; exact hh⟩
  obtain ⟨a₂, rfl, hrest⟩ := o.opens_apart hopen ha hne hsplit
  have hlist : ¬ Flat (front ++ a₂) := fun hflat =>
    hflat (hopen.opening.isInfix.trans (List.prefix_append front a₂).isInfix)
  have hfront : front ≠ [] := by
    rintro rfl
    exact absurd (List.prefix_nil.1 hopen.opening) (by decide)
  have htext_ne : h.text ≠ [] := by
    rw [htext]
    exact fun hnil => hfront (List.append_eq_nil_iff.1 hnil).1
  unfold KeepsHead
  rw [ht] at hh ⊢
  rw [replaceFrom_of_some hh htext_ne]
  rcases o.closes_apart harrow hclose hrest with ⟨a₃, rfl, rfl⟩ | ⟨m, rfl, rfl⟩
  · have hcut : front ++ (body ++ (back ++ a₃)) = h.text ++ a₃ := by
      rw [htext]
      simp only [List.append_assoc]
    rw [hcut] at ha ih ⊢
    have hshorter : a₃.length < (h.text ++ a₃).length := by
      rw [List.length_append]
      exact Nat.lt_add_of_pos_left (List.length_pos_iff.2 htext_ne)
    obtain ⟨a', z', heq, hsteps, -⟩ := ih a₃ hshorter ha.right
    have hlater := hsteps.lift (r.write h ++ ·) fun _ _ hstep => hstep.append_left (r.write h)
    refine ⟨r.write h ++ a', z', by rw [heq, List.append_assoc], ?_, fun hflat => absurd hflat (hcut ▸ hlist)⟩
    refine ReflTransGen.trans ?_ hlater
    rcases hwrite with hsame | hnew
    · rw [hsame]
    · rw [hnew, htext]
      exact KeyRule.exchange hends (Or.inr hclose)
  · generalize r.pattern.replaceFrom r.write (h.text.reverse ++ behind) rest = y
    rcases hwrite with hsame | hnew
    · refine ⟨front ++ a₂, m ++ (back ++ y), ?_, .refl, fun _ => rfl⟩
      rw [hsame, htext]
      simp only [List.append_assoc]
    · refine ⟨front' ++ a₂, m ++ (back' ++ y), ?_, .single ?_, fun hflat => absurd hflat hlist⟩
      · rw [hnew]
        simp only [List.append_assoc]
      · exact ⟨[], front, front', a₂, rfl, rfl, hends⟩

/-- **Where an element has a key, a rule changes only what stands in front of its head and behind it.** -/
theorem keepsHead (hattributes : Closed (attributesText o.attributes)) {a : Text} (ha : Closed a) (behind z : Text) :
    r.KeepsHead o behind a z := by
  induction hlength : a.length using Nat.strongRecOn generalizing a behind with
  | ind n ih =>
    subst hlength
    cases a with
    | nil => exact keepsHead_nil hr o harrow hattributes behind z
    | cons c a =>
      rcases hhit : r.pattern.hit? behind ((c :: a) ++ (o.text ++ z)) with _ | h
      · exact .cons o hhit (ih a.length (Nat.lt_succ_self _) (ha.right (u := [c])) (c :: behind) rfl)
      · exact keepsHead_of_hit? hr o harrow ha (List.cons_ne_nil c a) hhit fun a' hlt ha' =>
          ih a'.length hlt ha' (h.text.reverse ++ behind) rfl

end KeyRule

/-! ### Parameters stay closed -/

/-- A stretch with a closing bracket may be put in, if no callback opens behind the bracket. -/
theorem Closed.splice {u x x₁ x₂ v : Text} (h : Closed (u ++ (x ++ v)))
    (hx : ∀ w b y, x₂ ++ v = w ++ (".map(".toList ++ (b ++ '(' :: y)) →
      ∃ w', v = w' ++ (".map(".toList ++ (b ++ '(' :: y))) : Closed (u ++ ((x₁ ++ ')' :: x₂) ++ v)) := by
  intro w b y heq hb
  refine Classical.byContradiction fun hno => hno ?_
  have hcut : (w ++ (".map(".toList ++ (b ++ ['(']))) ++ y = (u ++ x₁) ++ ')' :: (x₂ ++ v) := by
    simpa using heq.symm
  obtain ⟨k, hk, hrest⟩ := Text.cut_before hcut hno
  have hopening : ')' ∉ ".map(".toList ++ (b ++ ['(']) := by
    simp only [List.mem_append, not_or]
    exact ⟨by decide, notMem_of_isBlank hb (by decide), by decide⟩
  obtain ⟨w', -, rfl⟩ := Text.cut_before hk hopening
  obtain ⟨w'', rfl⟩ := hx w' b y (by rw [hrest]; simp)
  exact h (u ++ (x ++ w'')) b y (by simp) hb

/-- No callback opens behind a stretch without opening brackets that ends in a closing brace, but behind the brace. -/
theorem exists_behind_brace {x v w b y : Text} (hx : '(' ∉ x)
    (h : (x ++ ['\x7d']) ++ v = w ++ (".map(".toList ++ (b ++ '(' :: y))) :
    ∃ w', v = w' ++ (".map(".toList ++ (b ++ '(' :: y)) := by
  have hmap : ".map(".toList = ".map".toList ++ ['('] := by decide
  have hcut : (x ++ ['\x7d']) ++ v = (w ++ ".map".toList) ++ '(' :: (b ++ '(' :: y) := by
    rw [h, hmap]
    simp only [List.append_assoc, List.cons_append, List.nil_append]
  have hno : '(' ∉ x ++ ['\x7d'] := by
    rw [List.mem_append, not_or]
    exact ⟨hx, by decide⟩
  obtain ⟨k, hk, rfl⟩ := Text.cut_after hcut hno
  rw [List.append_assoc, List.singleton_append] at hk
  obtain ⟨w', -, rfl⟩ := Text.cut_before hk (by decide)
  refine ⟨w', ?_⟩
  rw [hmap]
  simp only [List.append_assoc, List.cons_append, List.nil_append]

/-- The rules for functions of one argument keep parameters closed. -/
theorem Closed.exchange {r : KeyRule} (hr : r.pattern = mapWithChildren ∨ r.pattern = mapSelfClosing) {a a' : Text}
    (h : Closed a) (hends : Exchange r.Ends a a') : Closed a' := by
  obtain ⟨u, x, x', v, rfl, rfl, ⟨hopen, behind, t, hit, hhit⟩ | hclose⟩ := hends
  · cases hopen with
    | single before item b₁ b₂ tag hfront hfront' hblanks hitem htag =>
      have hno : '(' ∉ " => ".toList ++ '<' :: (tag ++ ' ' :: ("key=\x7b".toList ++ itemKey item)) := by
        unfold itemKey
        simp only [List.mem_append, List.mem_cons, not_or]
        exact ⟨by decide, by decide, fun hmem => absurd (htag '(' hmem) (by decide), by decide, by decide,
          notMem_of_isItemChar hitem (by decide), by decide⟩
      have hwritten : x' = ('.' :: (("map((".toList ++ item) ++ ',' :: (' ' :: "index".toList))) ++ ')' ::
          ((" => ".toList ++ '<' :: (tag ++ ' ' :: ("key=\x7b".toList ++ itemKey item))) ++ ['\x7d']) := by
        rw [hfront', keyedOpening_eq]
        simp only [List.append_assoc, List.cons_append]
      rw [hwritten]
      exact Closed.splice h fun w b y hw => exists_behind_brace hno hw
    | double before item b₁ index b₂ b₃ tag hfront hfront' hblanks hitem hindex htag =>
      -- These rules do not match a function of two arguments.
      simp only [List.mem_append, or_imp, forall_and] at hblanks
      rw [hfront, List.append_assoc, List.append_assoc, List.cons_append] at hhit
      rcases hr with hr | hr
      · rw [hr] at hhit
        exact absurd ((hit?_of_bracket hblanks.1.1.1).symm.trans hhit) (by simp)
      · rw [hr] at hhit
        exact absurd ((hit?_of_bracket hblanks.1.1.1).symm.trans hhit) (by simp)
  · cases hclose with
    | empty hback hback' => rwa [hback']
    | content b hback hback' hb =>
      have hspliced : Closed (u ++ ((['>'] ++ ')' :: []) ++ v)) := h.splice fun w b y hw => ⟨w, hw⟩
      rw [hback']
      exact hspliced

theorem Closed.exchanges {r : KeyRule} (hr : r.pattern = mapWithChildren ∨ r.pattern = mapSelfClosing) {a a' : Text}
    (h : Closed a) (hends : ReflTransGen (Exchange r.Ends) a a') : Closed a' := by
  induction hends with
  | refl => exact h
  | tail _ hlast ih => exact ih.exchange hr hlast

theorem KeyRule.exchanged {r : KeyRule} {a a' : Text} (h : ReflTransGen (Exchange r.Ends) a a') :
    ReflTransGen (Exchange fun x x' => Opens x x' ∨ Closes x x') a a' := by
  refine h.lift id fun a a' hstep => ?_
  obtain ⟨u, x, x', v, ha, ha', hends⟩ := hstep
  exact ⟨u, x, x', v, ha, ha', hends.imp_left And.left⟩

/-- **An element that has a key gets no second one**, if the attributes in front of the key hold no closing bracket and
the parameters of callbacks in front of it are closed: the head of the element stays as it is, and what stands in front
of it changes only by exchanging the two ends of other matches. -/
theorem addMissingKeys_keeps_head (o : KeyedHead) (harrow : '>' ∉ attributesText o.attributes)
    (hattributes : Closed (attributesText o.attributes)) {a : Text} (ha : Closed a) (z : Text) :
    ∃ a' z', addMissingKeys (a ++ (o.text ++ z)) = a' ++ (o.text ++ z') ∧
      ReflTransGen (Exchange fun x x' => Opens x x' ∨ Closes x x') a a' ∧ (Flat a → a' = a) := by
  have hrule {r : KeyRule} (hr : r ∈ keyRules) {a : Text} (ha : Closed a) (z : Text) :
      ∃ a' z', r.apply (a ++ (o.text ++ z)) = a' ++ (o.text ++ z') ∧ ReflTransGen (Exchange r.Ends) a a' ∧
        (Flat a → a' = a) := by
    rw [KeyRule.apply, replace_eq]
    exact KeyRule.keepsHead hr o harrow hattributes ha [] z
  rw [addMissingKeys_eq, keyRules, List.foldl_cons, List.foldl_cons, List.foldl_cons, List.foldl_nil]
  obtain ⟨a₁, z₁, heq₁, hsteps₁, hflat₁⟩ := hrule (r := ⟨mapWithChildren, keyWithChildren⟩) (by simp [keyRules]) ha z
  have ha₁ := ha.exchanges (Or.inl rfl) hsteps₁
  obtain ⟨a₂, z₂, heq₂, hsteps₂, hflat₂⟩ := hrule (r := ⟨mapSelfClosing, keySelfClosing⟩) (by simp [keyRules]) ha₁ z₁
  have ha₂ := ha₁.exchanges (Or.inr rfl) hsteps₂
  obtain ⟨a₃, z₃, heq₃, hsteps₃, hflat₃⟩ := hrule (r := ⟨mapWithIndex, keyWithIndex⟩) (by simp [keyRules]) ha₂ z₂
  refine ⟨a₃, z₃, by rw [heq₁, heq₂, heq₃], ?_, fun hflat => ?_⟩
  · exact (KeyRule.exchanged hsteps₁).trans ((KeyRule.exchanged hsteps₂).trans (KeyRule.exchanged hsteps₃))
  · obtain rfl := hflat₁ hflat
    obtain rfl := hflat₂ hflat
    exact hflat₃ hflat

/-- A list whose elements have a class and a key. -/
def keyedItem : KeyedHead where
  before := []
  params := .bracketed "x, i".toList (by decide)
  after := [' ']
  lead := [' ']
  tag := "li".toList
  attributes := [.spaced "className".toList (.braced "c".toList (balanced_of_plain (by decide))) (by decide) (by decide)]
  gap := [' ']
  before_blank := by decide
  after_blank := space_blank
  lead_chars := by decide
  tag_chars := by decide
  gap_ne_nil := space_ne_nil
  gap_blank := space_blank

/-- Such an element keeps its head. -/
theorem addMissingKeys_keyedItem :
    ('>' ∉ attributesText keyedItem.attributes ∧ Closed (attributesText keyedItem.attributes) ∧ Closed "xs".toList) ∧
      ∃ a' z', addMissingKeys ("xs".toList ++ (keyedItem.text ++ "\x7bx.id\x7d>a</li>)".toList)) =
          a' ++ (keyedItem.text ++ z') ∧
        ReflTransGen (Exchange fun x x' => Opens x x' ∨ Closes x x') "xs".toList a' ∧ (Flat "xs".toList → a' = "xs".toList) := by
  have harrow : '>' ∉ attributesText keyedItem.attributes := by decide
  have hattributes : Closed (attributesText keyedItem.attributes) := (flat_of_no_dot (by decide)).closed
  have ha : Closed "xs".toList := (flat_of_no_dot (by decide)).closed
  exact ⟨⟨harrow, hattributes, ha⟩, addMissingKeys_keeps_head keyedItem harrow hattributes ha _⟩

/-- A handler and a key. -/
def handlerAndKey : List Attribute :=
  [.spaced "onFocus".toList (.braced "() => f()".toList (balanced_of_plain (by decide))) (by decide) (by decide),
    .spaced "key".toList (.braced "x.id".toList (balanced_of_plain (by decide))) (by decide) (by decide)]

/-- A list whose elements have a key behind a handler. -/
def handledItem : Text := "xs.map(x => <li".toList ++ (attributesText handlerAndKey ++ ">a</li>)".toList)

/-- They get a second key. -/
theorem addMissingKeys_handledItem :
    handlerAndKey.any (fun x => x.name == "key".toList) = true ∧
      handledItem = "xs.map(x => <li onFocus=\x7b() => f()\x7d key=\x7bx.id\x7d>a</li>)".toList ∧
      addMissingKeys handledItem =
        "xs.map((x, index) => <li key=\x7bx.id ?? index\x7d onFocus=\x7b() => f()\x7d key=\x7bx.id\x7d>a</li>)".toList := by
  decide +kernel

end LayeredFix.Pass.Component
