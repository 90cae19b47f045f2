import LayeredFix.Pass.Guard
import LayeredFix.Proofs.Text.Part
import LayeredFix.Proofs.Text.Replacing

/-!
# References to host globals

What the rules for host globals look for: a reference with what must follow it (`HostRule.Refers`), where what has been
read is neither the rule's own test nor the beginning of a path (`HostRule.Free`). `hit?_eq_none_iff` says that a rule
matches just there.

A reference is made of path characters, but for its last one, and has a dot in it (`Refers.path`, `Refers.dot`). So
none can begin in a stretch that has no dot and ends in a character outside of paths (`not_refers_of_dotless`).
-/

namespace LayeredFix.Pass.Guard

open Pattern

/-- A character of a path: a word character, a dot or a dollar sign. -/
def isPath (c : Char) : Bool := Text.isWord c || c == '.' || c == '$'

/-- The calls of the methods of a storage, up to the opening bracket. -/
def storageCalls : List Text := ["getItem(", "setItem(", "removeItem(", "clear(", "key("].map String.toList

/-- Whether a character may begin the name of a member. -/
def beginsMember (c : Char) : Bool := c.isAlpha || c == '_' || c == '$'

/-! ### What must follow a reference -/

theorem exists_mem_ends_storageMethod {s : Place} :
    (∃ e, e ∈ storageMethod.ends s) ↔ ∃ w ∈ storageCalls, w <+: s.ahead := by
  constructor
  · rintro ⟨e, he⟩
    obtain ⟨m, hm, he⟩ := mem_ends_seq.1 he
    obtain ⟨w, hw, ⟨rest, ha⟩, rfl⟩ := mem_ends_anyText.1 hm
    obtain ⟨⟨rest', ha'⟩, -⟩ := mem_ends_text.1 he
    rw [Place.ahead_advance, ← ha, List.drop_left] at ha'
    refine ⟨w.toList ++ ['('], ?_, rest', by rw [← ha, ← ha']; simp⟩
    simp only [List.mem_cons, List.not_mem_nil, or_false] at hw
    rcases hw with rfl | rfl | rfl | rfl | rfl <;> decide
  · rintro ⟨w, hw, rest, ha⟩
    obtain ⟨m, hm, rfl⟩ : ∃ m ∈ ["getItem", "setItem", "removeItem", "clear", "key"], w = m.toList ++ ['('] := by
      simp only [storageCalls, List.map_cons, List.map_nil, List.mem_cons, List.not_mem_nil, or_false] at hw
      rcases hw with rfl | rfl | rfl | rfl | rfl
      · exact ⟨"getItem", by decide, rfl⟩
      · exact ⟨"setItem", by decide, rfl⟩
      · exact ⟨"removeItem", by decide, rfl⟩
      · exact ⟨"clear", by decide, rfl⟩
      · exact ⟨"key", by decide, rfl⟩
    rw [List.append_assoc] at ha
    refine ⟨_, mem_ends_seq.2 ⟨_, mem_ends_anyText.2 ⟨m, hm, ⟨_, ha⟩, rfl⟩, mem_ends_text.2 ⟨⟨rest, ?_⟩, rfl⟩⟩⟩
    rw [Place.ahead_advance, ← ha, List.drop_left]
    rfl

theorem exists_mem_ends_memberStart {s : Place} :
    (∃ e, e ∈ memberStart.ends s) ↔ ∃ c, beginsMember c = true ∧ [c] <+: s.ahead := by
  constructor
  · rintro ⟨e, he⟩
    obtain ⟨c, rest, ha, hc, -⟩ := mem_ends_one.1 he
    exact ⟨c, hc, rest, ha.symm⟩
  · rintro ⟨c, hc, rest, ha⟩
    exact ⟨_, mem_ends_one.2 ⟨c, rest, ha.symm, hc, rfl⟩⟩

namespace HostRule

/-- The stretches that a rule asks for after a reference. -/
inductive Tail (r : HostRule) : Text → Prop where
  /-- The call of a method. -/
  | call {w : Text} (hr : r.follow = storageMethod) (hw : w ∈ storageCalls) : Tail r w
  /-- The first character of the name of a member. -/
  | member {c : Char} (hr : r.follow = memberStart) (hc : beginsMember c = true) : Tail r [c]

theorem follow_cases {r : HostRule} (hr : r ∈ hostRules) : r.follow = storageMethod ∨ r.follow = memberStart := by
  simp only [hostRules, List.mem_cons, List.not_mem_nil, or_false] at hr
  rcases hr with rfl | rfl | rfl | rfl | rfl | rfl | rfl <;> simp

theorem exists_mem_ends_follow {r : HostRule} (hr : r ∈ hostRules) {s : Place} :
    (∃ e, e ∈ r.follow.ends s) ↔ ∃ w, r.Tail w ∧ w <+: s.ahead := by
  constructor
  · intro h
    rcases follow_cases hr with hf | hf
    · rw [hf, exists_mem_ends_storageMethod] at h
      obtain ⟨w, hw, ha⟩ := h
      exact ⟨w, .call hf hw, ha⟩
    · rw [hf, exists_mem_ends_memberStart] at h
      obtain ⟨c, hc, ha⟩ := h
      exact ⟨[c], .member hf hc, ha⟩
  · rintro ⟨w, hw, ha⟩
    cases hw with
    | call hf hw =>
      rw [hf, exists_mem_ends_storageMethod]
      exact ⟨w, hw, ha⟩
    | member hf hc =>
      rw [hf, exists_mem_ends_memberStart]
      exact ⟨_, hc, ha⟩

/-! ### Where a rule matches -/

/-- A reference of a rule with what must follow it. -/
def Refers (r : HostRule) (x : Text) : Prop := ∃ w, x = r.reference.toList ++ w ∧ r.Tail w

/-- After `behind`, last character first, a reference has no test of the rule yet and begins a path. -/
def Free (r : HostRule) (behind : Text) : Prop :=
  ¬ (existenceTest r.host).reverse <+: behind ∧ ∀ c, behind.head? = some c → isPath c = false

theorem mem_ends_pattern {r : HostRule} (hr : r ∈ hostRules) {s e : Place} :
    e ∈ r.pattern.ends s ↔
      r.Free s.behind ∧ (∃ x, r.Refers x ∧ x <+: s.ahead) ∧ e = s.advance r.reference.toList := by
  unfold pattern Free
  simp only [Pattern.all, mem_ends_seq, mem_ends_notAfter, mem_ends_notAfterAny, mem_ends_text,
    mem_ends_followedBy, exists_mem_ends_follow hr]
  constructor
  · rintro ⟨_, ⟨hg, rfl⟩, _, ⟨hp, rfl⟩, _, ⟨⟨rest, ha⟩, rfl⟩, ⟨w, hw, rest', ha'⟩, rfl⟩
    rw [Place.ahead_advance, ← ha, List.drop_left] at ha'
    exact ⟨⟨hg, hp⟩, ⟨_, ⟨w, rfl, hw⟩, rest', by rw [← ha, ← ha', List.append_assoc]⟩, rfl⟩
  · rintro ⟨⟨hg, hp⟩, ⟨_, ⟨w, rfl, hw⟩, rest, ha⟩, rfl⟩
    rw [List.append_assoc] at ha
    refine ⟨_, ⟨hg, rfl⟩, _, ⟨hp, rfl⟩, _, ⟨⟨_, ha⟩, rfl⟩, ⟨w, hw, rest, ?_⟩, rfl⟩
    rw [Place.ahead_advance, ← ha, List.drop_left]

/-- **A rule matches nothing at a place just if the place is not free or no reference begins there.** -/
theorem hit?_eq_none_iff {r : HostRule} (hr : r ∈ hostRules) {behind t : Text} :
    r.pattern.hit? behind t = none ↔ (r.Free behind → ∀ x, r.Refers x → ¬ x <+: t) := by
  rw [Pattern.hit?_eq_none_iff]
  constructor
  · intro h hfree x hx hxt
    exact h _ ((mem_ends_pattern hr).2 ⟨hfree, ⟨x, hx, hxt⟩, rfl⟩)
  · intro h e he
    obtain ⟨hfree, ⟨x, hx, hxt⟩, -⟩ := (mem_ends_pattern hr).1 he
    exact h hfree x hx hxt

/-- What a rule matches is its reference. -/
theorem text_of_hit? {r : HostRule} (hr : r ∈ hostRules) {behind t : Text} {h : Hit}
    (hh : r.pattern.hit? behind t = some h) : h.text = r.reference.toList := by
  obtain ⟨e, he, rfl⟩ := exists_of_hitAt hh
  obtain ⟨-, ⟨_, ⟨w, rfl, -⟩, rest, ha⟩, rfl⟩ := (mem_ends_pattern hr).1 he
  rw [List.append_assoc] at ha
  exact (Place.reads_advance ha.symm).text_stretch

/-! ### The shape of references -/

theorem reference_eq {r : HostRule} (hr : r ∈ hostRules) :
    ∃ word, r.reference.toList = word ++ ['.'] ∧ '.' ∉ word ∧ ∀ c ∈ word, isPath c = true := by
  refine ⟨r.reference.toList.dropLast, ?_⟩
  have hall : ∀ r ∈ hostRules, r.reference.toList = r.reference.toList.dropLast ++ ['.'] ∧
      '.' ∉ r.reference.toList.dropLast ∧ r.reference.toList.dropLast.all isPath = true := by
    decide
  obtain ⟨hlast, hdot, hpath⟩ := hall r hr
  exact ⟨hlast, hdot, List.all_eq_true.1 hpath⟩

theorem Tail.shape {r : HostRule} {w : Text} (h : r.Tail w) :
    ∃ front last, w = front ++ [last] ∧ (∀ c ∈ front, isPath c = true) ∧
      (last = '(' ∨ beginsMember last = true) := by
  cases h with
  | call hr hw =>
    have hall : ∀ w ∈ storageCalls, w = w.dropLast ++ ['('] ∧ w.dropLast.all isPath = true := by decide
    exact ⟨w.dropLast, '(', (hall w hw).1, List.all_eq_true.1 (hall w hw).2, Or.inl rfl⟩
  | member hr hc => exact ⟨[], _, rfl, by simp, Or.inr hc⟩

/-- All characters of a reference but the last one are path characters, with a dot among them. -/
theorem Refers.shape {r : HostRule} (hr : r ∈ hostRules) {x : Text} (h : r.Refers x) :
    ∃ front last, x = front ++ [last] ∧ (∀ c ∈ front, isPath c = true) ∧ '.' ∈ front ∧
      (last = '(' ∨ beginsMember last = true) := by
  obtain ⟨w, rfl, hw⟩ := h
  obtain ⟨word, hword, -, hpath⟩ := reference_eq hr
  obtain ⟨front, last, rfl, hfront, hlast⟩ := hw.shape
  refine ⟨r.reference.toList ++ front, last, by simp, ?_, by simp [hword], hlast⟩
  intro c hc
  rcases List.mem_append.1 hc with hc | hc
  · rw [hword] at hc
    rcases List.mem_append.1 hc with hc | hc
    · exact hpath c hc
    · obtain rfl := List.mem_singleton.1 hc
      decide
  · exact hfront c hc

end HostRule

/-- No reference begins in a stretch without dots, up to a character outside of paths. -/
theorem not_refers_of_dotless {r : HostRule} (hr : r ∈ hostRules) {u v x : Text} {d : Char} (hx : r.Refers x)
    (hu : '.' ∉ u) (hd : isPath d = false) : ¬ x <+: u ++ d :: v := by
  intro h
  obtain ⟨front, last, rfl, hpath, hdot, -⟩ := hx.shape hr
  have hfront : front <+: u ++ d :: v := (List.prefix_append front [last]).trans h
  have hne : d ∉ front := fun hmem => by simp [hpath d hmem] at hd
  exact hu ((Text.prefix_of_notMem hfront hne).subset hdot)

/-! ### What has been read -/

/-- Whatever is read next, the two texts before it leave the same places free. -/
def Alike (behind behind' : Text) : Prop :=
  ∀ r ∈ hostRules, ∀ w, HostRule.Free r (w ++ behind) ↔ HostRule.Free r (w ++ behind')

theorem Alike.refl (behind : Text) : Alike behind behind := fun _ _ _ => Iff.rfl

theorem Alike.append {behind behind' : Text} (h : Alike behind behind') (w : Text) :
    Alike (w ++ behind) (w ++ behind') := by
  intro r hr u
  rw [← List.append_assoc, ← List.append_assoc]
  exact h r hr (u ++ w)

theorem Alike.free {behind behind' : Text} (h : Alike behind behind') {r : HostRule} (hr : r ∈ hostRules) :
    r.Free behind ↔ r.Free behind' := h r hr []

/-- A character that stands in no test. -/
def Breaks (c : Char) : Prop := ∀ r ∈ hostRules, c ∉ existenceTest r.host

theorem Breaks.test_prefix_iff {c : Char} (hc : Breaks c) {r : HostRule} (hr : r ∈ hostRules) (w behind : Text) :
    (existenceTest r.host).reverse <+: w ++ c :: behind ↔ (existenceTest r.host).reverse <+: w := by
  constructor
  · intro h
    exact Text.prefix_of_notMem h (by rw [List.mem_reverse]; exact hc r hr)
  · intro h
    exact h.trans (List.prefix_append w _)

/-- What stands before a character of no test does not matter. -/
theorem Breaks.alike {c : Char} (hc : Breaks c) (behind behind' : Text) : Alike (c :: behind) (c :: behind') := by
  intro r hr w
  unfold HostRule.Free
  rw [hc.test_prefix_iff hr, hc.test_prefix_iff hr]
  cases w <;> rfl

/-- A character of no test and of no path is as good as the beginning of the text. -/
theorem Breaks.alike_nil {c : Char} (hc : Breaks c) (hp : isPath c = false) (behind : Text) :
    Alike [] (c :: behind) := by
  intro r hr w
  unfold HostRule.Free
  rw [hc.test_prefix_iff hr, List.append_nil]
  cases w with
  | nil => simp [hp]
  | cons d w => rfl

end LayeredFix.Pass.Guard
