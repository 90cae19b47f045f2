import LayeredFix.Proofs.Text.Matching
import LayeredFix.Proofs.Text.Part

/-!
# Replacing and searching, place by place

`Pattern.hit?` is the match that begins where a text is cut in two. `piecesFrom` goes over a text from left to right
and knows what it has passed over, since a pattern may ask for that; `cut_eq` says that its pieces are those that a text
is cut into. `replaceFrom` puts something else in the place of each match, and `replace_eq` says that this is what
replacing does. `search_eq_none_iff` and `search_spec` say what a search finds.
-/

namespace LayeredFix.Pattern

/-- The match that begins at the beginning of `t`, where `behind` has been read, last character first. -/
def hit? (p : Pattern) (behind t : Text) : Option Hit := p.hitAt ⟨behind.length, behind, t, []⟩

theorem hit?_eq_none_iff {p : Pattern} {behind t : Text} :
    p.hit? behind t = none ↔ ∀ e, e ∉ p.ends ⟨behind.length, behind, t, []⟩ := hitAt_eq_none_iff

/-- What is matched stands ahead. -/
theorem text_hit? {p : Pattern} {behind t : Text} {h : Hit} (hh : p.hit? behind t = some h) :
    ∃ rest, t = h.text ++ rest := by
  have ht : h.text = t.take h.text.length := text_hitAt hh
  have hcut := List.take_append_drop h.text.length t
  rw [← ht] at hcut
  exact ⟨_, hcut.symm⟩

theorem text_hit?_cons {p : Pattern} {behind t : Text} {c : Char} {h : Hit}
    (hh : p.hit? behind (c :: t) = some h) (hne : h.text ≠ []) :
    c :: t = h.text ++ t.drop (h.text.length - 1) := by
  obtain ⟨rest, ht⟩ := text_hit? hh
  obtain ⟨d, w, hw⟩ := List.exists_cons_of_ne_nil hne
  rw [hw] at ht ⊢
  obtain ⟨rfl, rfl⟩ := List.cons.inj ht
  simp

/-- What a pattern matches that begins with a word begins with it. -/
theorem prefix_of_hit?_seq_text {w : String} {q : Pattern} {behind t : Text} {h : Hit}
    (hh : (seq (text w) q).hit? behind t = some h) : w.toList <+: h.text := by
  obtain ⟨e, he, rfl⟩ := exists_of_hitAt hh
  obtain ⟨m, hm, he⟩ := mem_ends_seq.1 he
  obtain ⟨⟨rest, ht⟩, rfl⟩ := mem_ends_text.1 hm
  obtain ⟨u, hu⟩ := exists_reads_of_mem_ends he
  exact ⟨u, ((Place.reads_advance ht.symm).trans hu).text_stretch.symm⟩

/-- What a pattern that looks only ahead matches does not depend on what has been read. -/
theorem hit?_of_isForward {p : Pattern} (hp : p.isForward = true) (behind t : Text) :
    p.hit? behind t = p.hit? [] t := by
  have h := ends_moved hp behind.length behind (Place.start t)
  unfold hit?
  rw [hitAt_eq, hitAt_eq]
  have hs : (Place.start t).moved behind.length behind = ⟨behind.length, behind, t, []⟩ := rfl
  rw [← hs, h, List.head?_map, Option.map_map]
  congr 1
  funext e
  simp only [Function.comp_apply, Place.stretch_moved]
  rfl

variable {p : Pattern} {f : Hit → Text}

/-! ### Pieces -/

/-- The pieces of the text `t`, where `behind` has been read. -/
def piecesFrom (p : Pattern) (behind : Text) : Text → List Piece
  | [] => []
  | c :: t =>
    match p.hit? behind (c :: t) with
    | none => .kept c :: piecesFrom p (c :: behind) t
    | some h =>
      if h.text.isEmpty then .kept c :: piecesFrom p (c :: behind) t
      else .hit h :: piecesFrom p (h.text.reverse ++ behind) (t.drop (h.text.length - 1))
termination_by t => t.length
decreasing_by
  · exact Nat.lt_succ_self _
  · exact Nat.lt_succ_self _
  · rw [List.length_drop, List.length_cons]
    omega

@[simp] theorem piecesFrom_nil (behind : Text) : p.piecesFrom behind [] = [] := by rw [piecesFrom]

theorem piecesFrom_cons_of_none {behind t : Text} {c : Char} (h : p.hit? behind (c :: t) = none) :
    p.piecesFrom behind (c :: t) = .kept c :: p.piecesFrom (c :: behind) t := by
  rw [piecesFrom, h]

theorem piecesFrom_of_some {behind rest : Text} {h : Hit} (hh : p.hit? behind (h.text ++ rest) = some h)
    (hne : h.text ≠ []) :
    p.piecesFrom behind (h.text ++ rest) = .hit h :: p.piecesFrom (h.text.reverse ++ behind) rest := by
  cases ht : h.text with
  | nil => exact absurd ht hne
  | cons c w =>
    rw [ht] at hh
    rw [List.cons_append] at hh ⊢
    rw [piecesFrom, hh]
    simp [ht]

theorem cutFrom_eq (t : Text) :
    ∀ (skip : Nat) (behind : Text) (done : List Piece),
      p.cutFrom skip behind.length behind t done =
        done.reverse ++ p.piecesFrom ((t.take skip).reverse ++ behind) (t.drop skip) := by
  induction t with
  | nil => intro skip b done; cases skip <;> simp [cutFrom]
  | cons c t ih =>
    intro skip b done
    cases skip with
    | succ skip =>
      rw [cutFrom]
      refine (ih skip (c :: b) done).trans ?_
      simp
    | zero =>
      rw [cutFrom, List.take_zero, List.reverse_nil, List.nil_append, List.drop_zero]
      split
      · rename_i hn
        refine (ih 0 (c :: b) _).trans ?_
        rw [piecesFrom_cons_of_none hn]
        simp
      · rename_i h hh
        split
        · rename_i hempty
          refine (ih 0 (c :: b) _).trans ?_
          rw [piecesFrom, hit?, hh]
          simp [hempty]
        · rename_i hne
          refine (ih _ (c :: b) _).trans ?_
          obtain ⟨d, w, hw⟩ := List.exists_cons_of_ne_nil (fun h' => hne (List.isEmpty_iff.2 h'))
          obtain ⟨rest, ht⟩ := text_hit? (show p.hit? b (c :: t) = some h from hh)
          rw [hw] at ht
          obtain ⟨rfl, rfl⟩ := List.cons.inj ht
          rw [piecesFrom, hit?, hh]
          simp [hw]

/-- **A text is cut from left to right**, and what has been passed over is known. -/
theorem cut_eq (p : Pattern) (t : Text) : p.cut t = p.piecesFrom [] t := cutFrom_eq t 0 [] []

/-! ### Replacing -/

/-- The text `t` with something else in the place of each match, where `behind` has been read. -/
def replaceFrom (p : Pattern) (f : Hit → Text) (behind : Text) : Text → Text
  | [] => []
  | c :: t =>
    match p.hit? behind (c :: t) with
    | none => c :: replaceFrom p f (c :: behind) t
    | some h =>
      if h.text.isEmpty then c :: replaceFrom p f (c :: behind) t
      else f h ++ replaceFrom p f (h.text.reverse ++ behind) (t.drop (h.text.length - 1))
termination_by t => t.length
decreasing_by
  · exact Nat.lt_succ_self _
  · exact Nat.lt_succ_self _
  · rw [List.length_drop, List.length_cons]
    omega

/-- What is written for a piece of a text. -/
def written (f : Hit → Text) : Piece → Text
  | .kept c => [c]
  | .hit h => f h

theorem replaceFrom_eq (p : Pattern) (f : Hit → Text) (behind t : Text) :
    p.replaceFrom f behind t = (p.piecesFrom behind t).flatMap (written f) := by
  fun_induction replaceFrom p f behind t with
  | case1 => rw [piecesFrom_nil, List.flatMap_nil]
  | case2 behind c t hn ih => rw [piecesFrom_cons_of_none hn, List.flatMap_cons, ih, written, List.singleton_append]
  | case3 behind c t h hh hempty ih =>
    rw [piecesFrom, hh]
    dsimp only
    rw [if_pos hempty, List.flatMap_cons, ih, written, List.singleton_append]
  | case4 behind c t h hh hne ih =>
    rw [piecesFrom, hh]
    dsimp only
    rw [if_neg hne, List.flatMap_cons, ih, written]

/-- **Replacing goes over the text from left to right**, and knows what it has passed over. -/
theorem replace_eq (p : Pattern) (f : Hit → Text) (t : Text) : p.replace f t = p.replaceFrom f [] t := by
  have hwritten : p.replace f t = (p.cut t).flatMap (written f) := rfl
  rw [hwritten, cut_eq, replaceFrom_eq]

@[simp] theorem replaceFrom_nil (behind : Text) : p.replaceFrom f behind [] = [] := by rw [replaceFrom]

theorem replaceFrom_cons_of_none {behind t : Text} {c : Char} (h : p.hit? behind (c :: t) = none) :
    p.replaceFrom f behind (c :: t) = c :: p.replaceFrom f (c :: behind) t := by
  rw [replaceFrom, h]

theorem replaceFrom_of_some {behind rest : Text} {h : Hit} (hh : p.hit? behind (h.text ++ rest) = some h)
    (hne : h.text ≠ []) :
    p.replaceFrom f behind (h.text ++ rest) = f h ++ p.replaceFrom f (h.text.reverse ++ behind) rest := by
  rw [replaceFrom_eq, replaceFrom_eq, piecesFrom_of_some hh hne, List.flatMap_cons, written]

/-- No match begins in the stretch `w`, where `behind` has been read and `t` follows. -/
def Skips (p : Pattern) (behind w t : Text) : Prop :=
  ∀ u v, w = u ++ v → v ≠ [] → p.hit? (u.reverse ++ behind) (v ++ t) = none

theorem Skips.cons {behind w t : Text} {c : Char} (h : p.Skips behind (c :: w) t) :
    p.hit? behind (c :: (w ++ t)) = none ∧ p.Skips (c :: behind) w t := by
  refine ⟨h [] (c :: w) rfl (List.cons_ne_nil c w), fun u v hw hne => ?_⟩
  have hnone := h (c :: u) v (by rw [hw, List.cons_append]) hne
  simpa using hnone

/-- Matches that begin with a `d` skip a stretch without a `d`. -/
theorem skips_of_head {d : Char} (hp : ∀ behind t h, p.hit? behind t = some h → t.head? = some d) {w : Text}
    (hw : d ∉ w) (behind t : Text) : p.Skips behind w t := by
  intro u v hwuv hne
  obtain ⟨c, v, rfl⟩ := List.exists_cons_of_ne_nil hne
  refine Option.eq_none_iff_forall_ne_some.2 fun h hh => hw ?_
  rw [hwuv, ← Option.some.inj (hp _ _ _ hh)]
  simp

/-- Matches that begin with a word skip a stretch that ends in a character outside of the word, if they cannot end before
it. -/
theorem skips_of_word {x : Text} (hp : ∀ behind t h, p.hit? behind t = some h → x <+: h.text) {n d : Char} (hn : n ∈ x)
    (hd : d ∉ x) {w : Text} (hw : n ∉ w) (behind t : Text) : p.Skips behind (w ++ [d]) t := by
  intro u v hwuv hne
  obtain ⟨v, c, rfl⟩ := (List.eq_nil_or_concat v).resolve_left hne
  rw [List.concat_eq_append, ← List.append_assoc] at hwuv
  obtain ⟨rfl, hc⟩ := List.append_inj' hwuv rfl
  obtain rfl : d = c := List.singleton_inj.1 hc
  refine Option.eq_none_iff_forall_ne_some.2 fun h hh => hw (List.mem_append_right _ ?_)
  obtain ⟨rest, ht⟩ := text_hit? hh
  have hx : x <+: v ++ d :: t := by
    rw [List.concat_eq_append, List.append_assoc, List.singleton_append] at ht
    exact (hp _ _ _ hh).trans ⟨rest, ht.symm⟩
  exact (Text.prefix_of_notMem hx hd).subset hn

/-- A stretch that the matches skip is cut into its characters. -/
theorem piecesFrom_append {behind w t : Text} (h : p.Skips behind w t) :
    p.piecesFrom behind (w ++ t) = w.map Piece.kept ++ p.piecesFrom (w.reverse ++ behind) t := by
  induction w generalizing behind with
  | nil => rfl
  | cons c w ih =>
    rw [List.cons_append, piecesFrom_cons_of_none h.cons.1, ih h.cons.2]
    simp

/-- A stretch that the matches skip is left alone. -/
theorem replaceFrom_append {behind w t : Text} (h : p.Skips behind w t) :
    p.replaceFrom f behind (w ++ t) = w ++ p.replaceFrom f (w.reverse ++ behind) t := by
  have hkept : (w.map Piece.kept).flatMap (written f) = w := by
    rw [List.flatMap_map]
    exact List.flatMap_singleton' w
  rw [replaceFrom_eq, replaceFrom_eq, piecesFrom_append h, List.flatMap_append, hkept]

/-- A front that the matches skip stays where it is. -/
theorem keepsFront_replace {w : Text} (hw : ∀ t, p.Skips [] w t) : Text.KeepsFront w (p.replace f) :=
  fun t => ⟨_, (replace_eq p f (w ++ t)).trans (replaceFrom_append (hw t))⟩

/-- Behind a front that the matches skip, a text is replaced as anywhere. -/
theorem replace_append {w t : Text} (hw : p.Skips [] w t) : p.replace f (w ++ t) = w ++ p.replaceFrom f w.reverse t := by
  rw [replace_eq, replaceFrom_append hw, List.append_nil]

/-- A text whose matches are all written as they are stays as it is. -/
theorem replaceFrom_of_fixed {t : Text} :
    ∀ {behind : Text}, (∀ u v h, t = u ++ v → p.hit? (u.reverse ++ behind) v = some h → f h = h.text) →
      p.replaceFrom f behind t = t := by
  have hshift {c : Char} {t behind u v : Text} {h : Hit}
      (hf : ∀ u v h, c :: t = u ++ v → p.hit? (u.reverse ++ behind) v = some h → f h = h.text) (ht : t = u ++ v)
      (hh : p.hit? (u.reverse ++ (c :: behind)) v = some h) : f h = h.text :=
    hf (c :: u) v h (by rw [ht, List.cons_append]) (by simpa using hh)
  intro behind hf
  fun_induction replaceFrom p f behind t with
  | case1 behind => rfl
  | case2 behind c t hn ih => rw [ih fun u v h => hshift hf]
  | case3 behind c t h hh hempty ih => rw [ih fun u v h => hshift hf]
  | case4 behind c t h hh hne ih =>
    have hcut : c :: t = h.text ++ t.drop (h.text.length - 1) :=
      text_hit?_cons hh fun hnil => hne (List.isEmpty_iff.2 hnil)
    rw [ih, hf [] (c :: t) h rfl hh, ← hcut]
    intro u v h' ht hh'
    exact hf (h.text ++ u) v h' (by rw [hcut, ht, List.append_assoc]) (by simpa using hh')

/-! ### The matches in a text -/

theorem mem_hits_iff {t : Text} {h : Hit} : h ∈ p.hits t ↔ Piece.hit h ∈ p.piecesFrom [] t := by
  unfold hits
  rw [← cut_eq, List.mem_filterMap]
  constructor
  · rintro ⟨x, hx, hhit⟩
    cases x with
    | kept c => cases hhit
    | hit h' => exact Option.some.inj hhit ▸ hx
  · exact fun hx => ⟨_, hx, rfl⟩

/-- A match behind a stretch that the matches skip is among the matches. -/
theorem mem_hits_append {w t : Text} (hw : p.Skips [] w t) {h : Hit} (hh : p.hit? w.reverse t = some h)
    (hne : h.text ≠ []) : h ∈ p.hits (w ++ t) := by
  obtain ⟨rest, rfl⟩ := text_hit? hh
  rw [← List.append_nil w.reverse] at hh
  rw [mem_hits_iff, piecesFrom_append hw, piecesFrom_of_some hh hne]
  exact List.mem_append_right _ (List.mem_cons_self ..)

/-- A match at the beginning of the text is among the matches. -/
theorem mem_hits_of_hit? {t : Text} {h : Hit} (hh : p.hit? [] t = some h) (hne : h.text ≠ []) : h ∈ p.hits t :=
  mem_hits_append (w := []) (fun _ _ hw hv => absurd (List.append_eq_nil_iff.1 hw.symm).2 hv) hh hne

/-- Whether a piece is a match. -/
def isHit : Piece → Bool
  | .kept _ => false
  | .hit _ => true

/-- The matches are counted piece by piece. -/
theorem count_eq (p : Pattern) (t : Text) : p.count t = (p.piecesFrom [] t).countP isHit := by
  rw [count, hits, List.length_filterMap_eq_countP, cut_eq]
  congr 1
  funext x
  cases x <;> rfl

/-- A stretch that the matches skip adds none. -/
theorem countP_piecesFrom_append {behind w t : Text} (h : p.Skips behind w t) :
    (p.piecesFrom behind (w ++ t)).countP isHit = (p.piecesFrom (w.reverse ++ behind) t).countP isHit := by
  have hkept : (w.map Piece.kept).countP isHit = 0 := by
    refine List.countP_eq_zero.2 fun x hx => ?_
    obtain ⟨c, -, rfl⟩ := List.mem_map.1 hx
    exact Bool.false_ne_true
  rw [piecesFrom_append h, List.countP_append, hkept, Nat.zero_add]

/-- A match in a text begins somewhere in it. -/
theorem exists_of_mem_piecesFrom {h : Hit} {behind t : Text} (hmem : Piece.hit h ∈ p.piecesFrom behind t) :
    ∃ u v, t = u ++ v ∧ p.hit? (u.reverse ++ behind) v = some h := by
  fun_induction piecesFrom p behind t with
  | case1 behind => cases hmem
  | case2 behind c t hn ih =>
    obtain ⟨u, v, rfl, hh⟩ := ih ((List.mem_cons.1 hmem).resolve_left Piece.noConfusion)
    exact ⟨c :: u, v, rfl, by simpa using hh⟩
  | case3 behind c t h' hh' hempty ih =>
    obtain ⟨u, v, rfl, hh⟩ := ih ((List.mem_cons.1 hmem).resolve_left Piece.noConfusion)
    exact ⟨c :: u, v, rfl, by simpa using hh⟩
  | case4 behind c t h' hh' hne ih =>
    rcases List.mem_cons.1 hmem with heq | hmem
    · exact ⟨[], c :: t, rfl, by rw [Piece.hit.inj heq]; exact hh'⟩
    · obtain ⟨u, v, hcut, hh⟩ := ih hmem
      have hwhole := text_hit?_cons hh' fun hnil => hne (List.isEmpty_iff.2 hnil)
      exact ⟨h'.text ++ u, v, by rw [hwhole, hcut, List.append_assoc], by simpa using hh⟩

/-! ### Words in the result -/

/-- A match is written again, or something is written for it that stands apart from what is around it and does not hold
the word `w ++ [d]` unless the match does. -/
def Detached (w : Text) (d : Char) (matched written : Text) : Prop :=
  written = matched ∨ ∃ front e body e', written = front ++ e :: (body ++ [e']) ∧ d ∉ front ∧ e ∉ w ++ [d] ∧
    e' ∉ w ++ [d] ∧ (w ++ [d] <:+: body → w ++ [d] <:+: matched)

theorem infix_of_infix_replaceFrom {w : Text} {d : Char}
    (hf : ∀ behind t h, p.hit? behind t = some h → Detached w d h.text (f h)) {behind t : Text} :
    ∀ a, w ++ [d] <:+: a ++ p.replaceFrom f behind t → w ++ [d] <:+: a ++ t := by
  fun_induction replaceFrom p f behind t with
  | case1 => exact fun a h => h
  | case2 behind c t hn ih =>
    intro a h
    simpa using ih (a ++ [c]) (by simpa using h)
  | case3 behind c t hit hh hempty ih =>
    intro a h
    simpa using ih (a ++ [c]) (by simpa using h)
  | case4 behind c t hit hh hne ih =>
    intro a h
    have hcut : c :: t = hit.text ++ t.drop (hit.text.length - 1) :=
      text_hit?_cons hh fun hnil => hne (List.isEmpty_iff.2 hnil)
    rw [hcut]
    rcases hf _ _ _ hh with hsame | ⟨front, e, body, e', hwrite, hfront, he, he', hbody⟩
    · rw [hsame, ← List.append_assoc] at h
      rw [← List.append_assoc]
      exact ih _ h
    · rw [hwrite, List.append_assoc, ← List.append_assoc a, List.cons_append, Text.infix_append_cons_iff he,
        List.append_assoc, List.singleton_append, Text.infix_append_cons_iff he'] at h
      rcases h with h | h | h
      · exact (Text.infix_of_last_notMem h hfront).trans (List.prefix_append _ _).isInfix
      · exact (hbody h).trans ⟨a, t.drop (hit.text.length - 1), by simp⟩
      · have hrest := ih [] h
        rw [List.nil_append] at hrest
        exact hrest.trans (List.IsSuffix.isInfix ⟨a ++ hit.text, by simp⟩)

/-- **A replacement makes no word** if it makes none at each match. -/
theorem infix_of_infix_replace {w : Text} {d : Char}
    (hf : ∀ behind t h, p.hit? behind t = some h → Detached w d h.text (f h)) {t : Text}
    (h : w ++ [d] <:+: p.replace f t) : w ++ [d] <:+: t := by
  rw [replace_eq] at h
  exact infix_of_infix_replaceFrom hf [] h

/-! ### Searching -/

/-- The pattern matches nowhere in the text. -/
def Absent (p : Pattern) (t : Text) : Prop := ∀ u v, t = u ++ v → p.hit? u.reverse v = none

theorem replace_of_absent {t : Text} (h : p.Absent t) : p.replace f t = t := by
  rw [replace_eq]
  refine replaceFrom_of_fixed fun u v hit ht hh => ?_
  rw [List.append_nil, h u v ht] at hh
  cases hh

theorem searchFrom_eq_none_iff {t : Text} :
    ∀ {b : Text}, p.searchFrom b.length b t = none ↔
      ∀ u v, t = u ++ v → p.hit? (u.reverse ++ b) v = none := by
  induction t with
  | nil =>
    intro b
    rw [searchFrom, Option.map_eq_none_iff]
    constructor
    · intro h u v ht
      obtain ⟨rfl, rfl⟩ := List.append_eq_nil_iff.1 ht.symm
      exact h
    · intro h
      exact h [] [] rfl
  | cons c t ih =>
    intro b
    have hrec := ih (b := c :: b)
    rw [List.length_cons] at hrec
    rw [searchFrom]
    constructor
    · intro h u v ht
      split at h
      · cases h
      · rename_i hn
        cases u with
        | nil =>
          rw [List.nil_append] at ht
          exact ht ▸ hn
        | cons d u =>
          obtain ⟨rfl, rfl⟩ := List.cons.inj ht
          have := hrec.1 h u v rfl
          simpa using this
    · intro h
      have hn : p.hitAt ⟨b.length, b, c :: t, []⟩ = none := h [] (c :: t) rfl
      rw [hn]
      refine hrec.2 fun u v ht => ?_
      have := h (c :: u) v (by rw [ht, List.cons_append])
      simpa using this

theorem search_eq_none_iff {t : Text} : p.search t = none ↔ p.Absent t := by
  have h := searchFrom_eq_none_iff (p := p) (t := t) (b := [])
  simpa [Absent, search] using h

theorem searchFrom_spec {t : Text} {x : Found} :
    ∀ {b : Text}, p.searchFrom b.length b t = some x →
      ∃ u, x.before = b.reverse ++ u ∧ t = u ++ (x.hit.text ++ x.after) ∧
        p.hit? (u.reverse ++ b) (x.hit.text ++ x.after) = some x.hit := by
  induction t with
  | nil =>
    intro b h
    rw [searchFrom] at h
    obtain ⟨hit, hh, rfl⟩ := Option.map_eq_some_iff.1 h
    have ht : hit.text = [] := by simpa using text_hitAt hh
    refine ⟨[], (List.append_nil _).symm, by simp [ht], ?_⟩
    dsimp only
    rw [ht]
    exact hh
  | cons c t ih =>
    intro b h
    rw [searchFrom] at h
    split at h
    · rename_i hit hh
      cases Option.some.inj h
      obtain ⟨rest, ht⟩ := text_hit? (show p.hit? b (c :: t) = some hit from hh)
      refine ⟨[], (List.append_nil _).symm, ?_, ?_⟩
      · simp [ht]
      · dsimp only
        rw [ht, List.drop_left, ← ht]
        exact hh
    · obtain ⟨u, hb, ht, hh⟩ := ih (b := c :: b) h
      refine ⟨c :: u, by simp [hb], by rw [ht, List.cons_append], ?_⟩
      simpa using hh

/-- The first match with what stands before and after it. -/
theorem search_spec {t : Text} {x : Found} (h : p.search t = some x) :
    t = x.before ++ (x.hit.text ++ x.after) ∧ p.hit? x.before.reverse (x.hit.text ++ x.after) = some x.hit := by
  obtain ⟨u, hb, ht, hh⟩ := searchFrom_spec (b := []) h
  rw [List.reverse_nil, List.nil_append] at hb
  subst hb
  exact ⟨ht, by simpa using hh⟩

theorem Skips.of_cons {c : Char} {b u v : Text} (hfirst : p.hit? b (c :: (u ++ v)) = none) (hu : p.Skips (c :: b) u v) :
    p.Skips b (c :: u) v := by
  intro u' v' heq hne
  rcases u' with _ | ⟨c', u'⟩
  · obtain rfl : c :: u = v' := heq
    exact hfirst
  · obtain ⟨rfl, rfl⟩ := List.cons.inj heq
    simpa using hu u' v' rfl hne

theorem Skips.nil {b v : Text} : p.Skips b [] v :=
  fun _ _ huv hne => absurd (List.append_eq_nil_iff.1 huv.symm).2 hne

theorem skips_of_searchFrom {t : Text} {x : Found} : ∀ {b : Text}, p.searchFrom b.length b t = some x →
    ∃ u, x.before = b.reverse ++ u ∧ p.Skips b u (x.hit.text ++ x.after) := by
  induction t with
  | nil =>
    intro b h
    obtain ⟨hit, -, rfl⟩ := Option.map_eq_some_iff.1 h
    exact ⟨[], (List.append_nil _).symm, .nil⟩
  | cons c t ih =>
    intro b h
    rw [searchFrom] at h
    split at h
    · cases Option.some.inj h
      exact ⟨[], (List.append_nil _).symm, .nil⟩
    · rename_i hnone
      obtain ⟨u, hb, hskips⟩ := ih (b := c :: b) h
      obtain ⟨u', hb', ht, -⟩ := searchFrom_spec (b := c :: b) h
      obtain rfl := List.append_cancel_left (hb'.symm.trans hb)
      exact ⟨c :: u', by simp [hb], .of_cons (ht ▸ hnone) hskips⟩

/-- In front of the first match there is none. -/
theorem skips_of_search {t : Text} {x : Found} (h : p.search t = some x) : p.Skips [] x.before (x.hit.text ++ x.after) := by
  obtain ⟨u, hb, hskips⟩ := skips_of_searchFrom (b := []) h
  rw [List.reverse_nil, List.nil_append] at hb
  rwa [hb]

theorem search_of_skips {u v : Text} {h : Hit} (hu : p.Skips [] u v) (hh : p.hit? u.reverse v = some h) :
    p.search (u ++ v) = some ⟨u, h, v.drop h.text.length⟩ := by
  have hfrom : ∀ (u b : Text), p.Skips b u v → p.hit? (u.reverse ++ b) v = some h →
      p.searchFrom b.length b (u ++ v) = some ⟨b.reverse ++ u, h, v.drop h.text.length⟩ := by
    intro u
    induction u with
    | nil =>
      intro b _ hh
      have hat : p.hitAt ⟨b.length, b, v, []⟩ = some h := hh
      cases v with
      | nil =>
        have ht : h.text = [] := by simpa using text_hitAt hat
        rw [List.append_nil, searchFrom, hat]
        simp [ht]
      | cons c v =>
        rw [List.nil_append, searchFrom, hat]
        simp
    | cons c u ih =>
      intro b hu hh
      obtain ⟨hnone, hrest⟩ := hu.cons
      have hat : p.hitAt ⟨b.length, b, c :: (u ++ v), []⟩ = none := hnone
      rw [List.cons_append, searchFrom, hat]
      refine (ih (c :: b) hrest (by simpa using hh)).trans ?_
      simp
  exact hfrom u [] hu (by simpa using hh)

/-- The first match comes behind a stretch that the matches skip. -/
theorem before_of_search {w t : Text} (hw : p.Skips [] w t) {x : Found} (hx : p.search (w ++ t) = some x) :
    ∃ u, x.before = w ++ u := by
  obtain ⟨ht, hh⟩ := search_spec hx
  rcases List.append_eq_append_iff.1 ht with ⟨u, hu, -⟩ | ⟨v, hv, hvt⟩
  · exact ⟨u, hu⟩
  · rcases v with _ | ⟨c, v⟩
    · exact ⟨[], by rw [hv, List.append_nil, List.append_nil]⟩
    · have hnone := hw x.before (c :: v) hv (List.cons_ne_nil c v)
      rw [List.append_nil, ← hvt, hh] at hnone
      cases hnone

theorem keepsFront_replaceFirst {w : Text} (hw : ∀ t, p.Skips [] w t) (new : Text) :
    Text.KeepsFront w (p.replaceFirst new) := by
  intro t
  unfold replaceFirst
  rcases hx : p.search (w ++ t) with _ | x
  · exact ⟨t, rfl⟩
  · obtain ⟨u, hu⟩ := before_of_search (hw t) hx
    exact ⟨u ++ new ++ x.after, by simp only [hu, List.append_assoc]⟩

theorem occursIn_eq_false_iff {t : Text} : p.occursIn t = false ↔ p.Absent t := by
  rw [← search_eq_none_iff, occursIn, Option.isSome_eq_false_iff, Option.isNone_iff_eq_none]

end LayeredFix.Pattern
