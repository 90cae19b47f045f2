import LayeredFix.Proofs.Guard.Settling

/-!
# The pass that inserts host guards is idempotent

After one application nothing is left to do. No rule for host globals matches any more (`transform_guarded`): the
flag, the test of the flag and the mark of client code are put in places where they free no reference
(`Guarded.splice`). Nor is the flag put in again (`transform_idle`), nor the mark.
-/

namespace LayeredFix.Pass.Guard

open Pattern

/-! ### Putting something into a guarded text -/

/-- **A stretch of a guarded text may be exchanged for another**, if the new one holds no dot, ends outside of paths, is
read like the old one, and no reference that begins before it runs into it where it did not run into the old one. -/
theorem Guarded.splice {a o new z : Text} (h : Guarded (a ++ (o ++ z)))
    (hread : Alike (o.reverse ++ a.reverse) (new.reverse ++ a.reverse))
    (hnew : ∃ body last, new = body ++ [last] ∧ '.' ∉ body ∧ isPath last = false)
    (hrun : ∀ r ∈ hostRules, ∀ u k x, a = u ++ k → k ≠ [] → r.Refers x → x <+: k ++ (new ++ z) →
      ∃ x', r.Refers x' ∧ x' <+: k ++ (o ++ z)) : Guarded (a ++ (new ++ z)) := by
  intro r hr u v ht
  rw [HostRule.hit?_eq_none_iff hr]
  intro hfree x hx hxv
  have hold (u v : Text) (ht : a ++ (o ++ z) = u ++ v) : r.Free u.reverse → ∀ x, r.Refers x → ¬ x <+: v :=
    (HostRule.hit?_eq_none_iff hr).1 (h r hr u v ht)
  -- A place at or behind the end of the new stretch was there before.
  have hbehind (w : Text) (hu : u = a ++ (new ++ w)) (hz : z = w ++ v) : False := by
    refine hold (a ++ (o ++ w)) v (by rw [hz]; simp) ?_ x hx hxv
    have hw := (hread.append w.reverse).free hr
    rw [hu] at hfree
    simp only [List.reverse_append, List.append_assoc] at hw hfree ⊢
    exact hw.2 hfree
  -- In the new stretch, up to its last character, there is no dot.
  have hinside (w w' : Text) (hw : new = w ++ w') (hne : w' ≠ []) (hv : v = w' ++ z) : False := by
    obtain ⟨body, last, rfl, hdot, hlast⟩ := hnew
    obtain ⟨w', c, rfl⟩ := (List.eq_nil_or_concat w').resolve_left hne
    rw [List.concat_eq_append, ← List.append_assoc] at hw
    obtain ⟨rfl, hc⟩ := List.append_inj' hw rfl
    obtain rfl : last = c := List.singleton_inj.1 hc
    rw [hv, List.concat_eq_append, List.append_assoc, List.singleton_append] at hxv
    exact not_refers_of_dotless hr hx (fun hm => hdot (List.mem_append_right _ hm)) hlast hxv
  rcases List.append_eq_append_iff.1 ht with ⟨w, rfl, hw⟩ | ⟨k, rfl, rfl⟩
  · rcases List.append_eq_append_iff.1 hw with ⟨w', rfl, hz⟩ | ⟨w', hw', hv⟩
    · exact hbehind w' rfl hz
    · by_cases hne : w' = []
      · subst hne
        rw [List.append_nil] at hw'
        exact hbehind [] (by simp [hw']) hv.symm
      · exact hinside w w' hw' hne hv
  · by_cases hk : k = []
    · subst hk
      obtain ⟨body, last, hlast, -⟩ := hnew
      exact hinside [] new rfl (by simp [hlast]) rfl
    · obtain ⟨x', hx', hxv'⟩ := hrun r hr u k x rfl hk hx hxv
      exact hold u (k ++ (o ++ z)) (by simp) hfree x' hx' hxv'

/-- A reference that runs from `k` into a word with a blank behind it ends in the word. -/
theorem prefix_of_blank {r : HostRule} (hr : r ∈ hostRules) {x k w u : Text} (hx : r.Refers x)
    (h : x <+: k ++ (w ++ ' ' :: u)) : x <+: k ++ w := by
  rw [← List.append_assoc] at h
  refine Text.prefix_of_notMem h fun hmem => ?_
  obtain ⟨front, last, rfl, hpath, -, hlast⟩ := hx.shape hr
  rcases List.mem_append.1 hmem with hm | hm
  · exact absurd (hpath ' ' hm) (by decide)
  · obtain rfl := List.mem_singleton.1 hm
    rcases hlast with hl | hl
    · exact absurd hl (by decide)
    · exact absurd hl (by decide)

/-! ### The flag -/

theorem breaks_of_notMem {c : Char} (h : c ∉ "typeof window document navigator !== \"undefined\" && ".toList) :
    Breaks c := by
  have hall : ∀ r ∈ hostRules, ∀ d ∈ existenceTest r.host,
      d ∈ "typeof window document navigator !== \"undefined\" && ".toList := by decide +kernel
  exact fun r hr hc => h (hall r hr c hc)

/-- Where a declaration of state begins, the flag may be put in front of it. -/
theorem Guarded.insert_mountedState {a z : Text} (h : Guarded (a ++ ("const [".toList ++ z))) :
    Guarded (a ++ ((mountedState ++ "const [".toList) ++ z)) := by
  refine h.splice ?_ ⟨mountedState ++ "const ".toList, '[', by simp, by decide, by decide⟩ ?_
  · have hb : Breaks '[' := breaks_of_notMem (by decide)
    exact hb.alike ("const ".toList.reverse ++ a.reverse) _
  · intro r hr u k x ha hk hx hxv
    have hword : x <+: k ++ "const".toList := prefix_of_blank hr hx (u := _) hxv
    refine ⟨x, hx, hword.trans ?_⟩
    exact (List.prefix_append_right_inj k).2 ⟨" [".toList ++ z, rfl⟩

/-- A reference that does not end in a bracket is followed by the first character of a member. -/
theorem HostRule.Refers.member_of_last {r : HostRule} {k : Text} {c : Char} (h : r.Refers (k ++ [c])) (hc : c ≠ '(') :
    k = r.reference.toList ∧ r.follow = memberStart := by
  obtain ⟨w, hx, hw⟩ := h
  cases hw with
  | call hf hw =>
    have hall : ∀ w ∈ storageCalls, w = w.dropLast ++ ['('] := by decide
    rw [hall w hw, ← List.append_assoc] at hx
    exact absurd (List.singleton_inj.1 (List.append_inj' hx rfl).2) hc
  | member hf _ => exact ⟨(List.append_inj' hx rfl).1, hf⟩

/-- Where something is returned, the test of the flag may be put in its place. -/
theorem Guarded.insert_mountedRender {a blanks z : Text}
    (h : Guarded (a ++ (("return".toList ++ blanks ++ ['(']) ++ z))) : Guarded (a ++ (mountedRender ++ z)) := by
  have hrender : mountedRender = mountedRender.dropLast ++ ['('] := by decide
  refine h.splice ?_ ⟨_, _, hrender, by decide, by decide⟩ ?_
  · have hb : Breaks '(' := breaks_of_notMem (by decide)
    have halike := hb.alike (("return".toList ++ blanks).reverse ++ a.reverse)
      (mountedRender.dropLast.reverse ++ a.reverse)
    rw [hrender]
    simpa using halike
  · intro r hr u k x ha hk hx hxv
    -- A reference that runs into `if` ends there, with the first character of a member, if it does not end before.
    have hword : x <+: (k ++ ['i']) ++ ['f'] := by
      simpa using prefix_of_blank hr hx (u := _) (w := "if".toList) hxv
    rw [List.prefix_concat_iff, List.prefix_concat_iff] at hword
    rcases hword with rfl | rfl | hword
    · obtain ⟨word, href, -⟩ := HostRule.reference_eq hr
      have hki : k ++ ['i'] = word ++ ['.'] := (hx.member_of_last (by decide)).1.trans href
      exact absurd (List.append_inj' hki rfl).2 (by decide)
    · obtain ⟨rfl, hf⟩ := hx.member_of_last (by decide)
      exact ⟨_, ⟨['r'], rfl, .member hf (by decide)⟩, ⟨"eturn".toList ++ blanks ++ ['('] ++ z, by simp⟩⟩
    · exact ⟨x, hx, hword.trans (List.prefix_append _ _)⟩

/-! ### What the flag is put in front of -/

theorem text_stateDeclaration {behind t : Text} {h : Hit} (hh : stateDeclaration.hit? behind t = some h) :
    ∃ w, h.text = "const [".toList ++ w :=
  (prefix_of_hit?_seq_text hh).imp fun _ hw => hw.symm

theorem text_renderReturn {behind t : Text} {h : Hit} (hh : renderReturn.hit? behind t = some h) :
    ∃ blanks, h.text = "return".toList ++ blanks ++ ['('] ∧ ∀ c ∈ blanks, Text.isBlank c = true := by
  obtain ⟨e, he, rfl⟩ := exists_of_hitAt hh
  obtain ⟨_, hm, he⟩ := mem_ends_seq.1 he
  obtain ⟨⟨rest, ht⟩, rfl⟩ := mem_ends_text.1 hm
  obtain ⟨_, hm, he⟩ := mem_ends_seq.1 he
  obtain ⟨blanks, rest', hblanks, ht', rfl⟩ := mem_ends_many.1 hm
  obtain ⟨⟨rest'', ht''⟩, rfl⟩ := mem_ends_text.1 he
  exact ⟨blanks, (((Place.reads_advance ht.symm).trans (Place.reads_advance ht')).trans
    (Place.reads_advance ht''.symm)).text_stretch, hblanks⟩

/-! ### The whole pass -/

/-- There is no reason to put in the flag: either no use of host globals, or no state, or the flag is there, or there is
no declaration of state to put it in front of. -/
def Idle (t : Text) : Prop :=
  Text.anyOccursIn hostMarkers t = false ∨ Text.occursIn "useState".toList t = false ∨
    Text.occursIn "mounted".toList t = true ∨ stateDeclaration.Absent t

theorem addMountedState_of_idle {t : Text} (h : Idle t) : addMountedState t = t := by
  unfold addMountedState
  split
  · rfl
  · rename_i hcond
    simp only [Bool.or_eq_true, Bool.not_eq_true', not_or, Bool.not_eq_false, Bool.not_eq_true] at hcond
    obtain ⟨⟨hhost, hstate⟩, hmounted⟩ := hcond
    rcases h with h | h | h | h
    · exact absurd (h.symm.trans hhost) (by decide)
    · exact absurd (h.symm.trans hstate) (by decide)
    · exact absurd (hmounted.symm.trans h) (by decide)
    · rw [search_eq_none_iff.2 h]

/-- If the flag is put in, it is put in front of a declaration of state. -/
theorem addMountedState_of_not_idle {t : Text} (h : ¬ Idle t) :
    ∃ a z, t = a ++ ("const [".toList ++ z) ∧
      addMountedState t = renderReturn.replaceFirst mountedRender (a ++ (mountedState ++ "const [".toList ++ z)) := by
  unfold Idle at h
  simp only [not_or, Bool.not_eq_false, Bool.not_eq_true] at h
  obtain ⟨hhost, hstate, hmounted, hdecl⟩ := h
  rw [← search_eq_none_iff] at hdecl
  obtain ⟨x, hx⟩ := Option.ne_none_iff_exists'.1 hdecl
  obtain ⟨ht, hhit⟩ := search_spec hx
  obtain ⟨w, hw⟩ := text_stateDeclaration hhit
  refine ⟨x.before, w ++ x.after, by rw [ht, hw, List.append_assoc], ?_⟩
  unfold addMountedState
  rw [hhost, hstate, hmounted, hx, if_neg (by decide)]
  dsimp only
  rw [hw]
  simp only [List.append_assoc]

/-- The result of putting in the flag: the beginning of a return may have been exchanged. -/
theorem replaceFirst_mountedRender (t : Text) :
    renderReturn.replaceFirst mountedRender t = t ∨
      ∃ a blanks z, t = a ++ (("return".toList ++ blanks ++ ['(']) ++ z) ∧ (∀ c ∈ blanks, Text.isBlank c = true) ∧
        renderReturn.replaceFirst mountedRender t = a ++ (mountedRender ++ z) := by
  unfold Pattern.replaceFirst
  rcases hx : renderReturn.search t with _ | x
  · exact Or.inl rfl
  · obtain ⟨ht, hhit⟩ := search_spec hx
    obtain ⟨blanks, hb, hblanks⟩ := text_renderReturn hhit
    exact Or.inr ⟨x.before, blanks, x.after, by rw [ht, hb], hblanks, by simp⟩

theorem addMountedState_guarded {t : Text} (h : Guarded t) : Guarded (addMountedState t) := by
  by_cases hi : Idle t
  · rwa [addMountedState_of_idle hi]
  · obtain ⟨a, z, rfl, heq⟩ := addMountedState_of_not_idle hi
    rw [heq]
    have hflag := h.insert_mountedState
    rcases replaceFirst_mountedRender (a ++ (mountedState ++ "const [".toList ++ z)) with hr | ⟨a', blanks, z', ht, -, hr⟩
    · rw [hr]
      exact hflag
    · rw [hr]
      rw [ht] at hflag
      exact hflag.insert_mountedRender

/-- Once the flag has been put in, there is no reason to put it in again. -/
theorem addMountedState_idle (t : Text) : Idle (addMountedState t) := by
  by_cases hi : Idle t
  · rwa [addMountedState_of_idle hi]
  · obtain ⟨a, z, rfl, heq⟩ := addMountedState_of_not_idle hi
    refine Or.inr (Or.inr (Or.inl ?_))
    have hstate : "mounted".toList <:+: mountedState := (Text.occursIn_iff _ _).1 (by decide)
    have hrender : "mounted".toList <:+: mountedRender := (Text.occursIn_iff _ _).1 (by decide)
    rw [heq, Text.occursIn_iff]
    rcases replaceFirst_mountedRender (a ++ (mountedState ++ "const [".toList ++ z)) with hr | ⟨a', blanks, z', -, -, hr⟩
    · rw [hr]
      exact hstate.trans ⟨a, "const [".toList ++ z, by simp only [List.append_assoc]⟩
    · rw [hr]
      exact hrender.trans ⟨a', z', by simp only [List.append_assoc]⟩

/-! ### The mark of client code -/

theorem markClient_eq (t : Text) : markClient t = (clientDirective ++ "\n").toList ++ '\n' :: t := by
  have hmark : (clientDirective ++ "\n\n").toList = (clientDirective ++ "\n").toList ++ ['\n'] := by decide
  rw [markClient, hmark, List.append_assoc, List.singleton_append]

/-- A word without line breaks that does not occur in the mark occurs in a marked text just if it did before. -/
theorem occursIn_markClient {w : Text} (hline : '\n' ∉ w) (hmark : Text.occursIn w (clientDirective ++ "\n").toList = false)
    (t : Text) : Text.occursIn w (markClient t) = Text.occursIn w t := by
  rw [markClient_eq, Text.occursIn_append_cons hline hmark]

theorem Guarded.markClient {t : Text} (h : Guarded t) : Guarded (markClient t) := by
  have hblank : Breaks '\n' := breaks_of_notMem (by decide)
  have hmark : (clientDirective ++ "\n\n").toList = (clientDirective ++ "\n").toList ++ ['\n'] := by decide
  have hspliced : Guarded ([] ++ ((clientDirective ++ "\n\n").toList ++ t)) := by
    refine Guarded.splice (a := []) (o := []) h ?_ ⟨_, _, hmark, by decide, by decide⟩ ?_
    · rw [hmark, List.reverse_append]
      exact hblank.alike_nil (by decide) _
    · intro r hr u k x ha hk
      exact absurd (List.append_eq_nil_iff.1 ha.symm).2 hk
  exact hspliced

theorem absent_stateDeclaration_markClient {t : Text} (h : stateDeclaration.Absent t) :
    stateDeclaration.Absent (markClient t) := by
  have hmark : (clientDirective ++ "\n\n").toList = (clientDirective ++ "\n").toList ++ ['\n'] := by decide
  intro u v ht
  rw [hit?_of_isForward (by decide)]
  unfold markClient at ht
  rcases List.append_eq_append_iff.1 ht with ⟨w, -, hw⟩ | ⟨w, hu, hv⟩
  · rw [← hit?_of_isForward (by decide) w.reverse]
    exact h w v hw
  · rcases List.eq_nil_or_concat w with rfl | ⟨body, c, rfl⟩
    · exact h [] v hv.symm
    · -- A declaration that begins in the mark would have its first word there.
      rw [List.concat_eq_append, ← List.append_assoc] at hu
      obtain ⟨hbody, hc⟩ := List.append_inj' (hmark.symm.trans hu) rfl
      rw [List.concat_eq_append, List.append_assoc, List.singleton_append, ← List.singleton_inj.1 hc] at hv
      refine Option.eq_none_iff_forall_ne_some.2 fun hit hh => ?_
      obtain ⟨w, hw⟩ := text_stateDeclaration hh
      obtain ⟨rest, hrest⟩ := text_hit? hh
      have hword : "const [".toList <+: body ++ '\n' :: t :=
        ⟨w ++ rest, by rw [← hv, hrest, hw, List.append_assoc]⟩
      have hin : "const [".toList <:+: (clientDirective ++ "\n").toList :=
        (Text.prefix_of_notMem hword (by decide)).isInfix.trans (hbody ▸ (List.suffix_append u body).isInfix)
      exact absurd ((Text.occursIn_iff _ _).2 hin) (by decide)

theorem Idle.markClient {t : Text} (h : Idle t) : Idle (markClient t) := by
  unfold Idle
  rw [markClient_eq, Text.anyOccursIn_append_cons (by decide), ← markClient_eq, occursIn_markClient (by decide) (by decide),
    occursIn_markClient (by decide) (by decide)]
  exact h.imp_right (Or.imp_right (Or.imp_right absent_stateDeclaration_markClient))

theorem addClientDirective_eq (t : Text) : addClientDirective t = t ∨ addClientDirective t = markClient t := by
  unfold addClientDirective
  split
  · exact Or.inl rfl
  · split
    · exact Or.inl rfl
    · exact Or.inr rfl

theorem hasClientDirective_markClient (t : Text) : hasClientDirective (markClient t) = true := by
  unfold hasClientDirective Text.anyOccursIn
  refine List.any_eq_true.2 ⟨"'use client'".toList, by decide, ?_⟩
  rw [Text.occursIn_iff]
  exact ⟨[], ";\n\n".toList ++ t, rfl⟩

/-- The mark is not put in a second time. -/
theorem addClientDirective_idempotent (t : Text) :
    addClientDirective (addClientDirective t) = addClientDirective t := by
  rcases addClientDirective_eq t with h | h
  · rw [h, h]
  · rw [h]
    exact if_pos (hasClientDirective_markClient t)

theorem transform_guarded (t : Text) : Guarded (transform t) := by
  have h := addMountedState_guarded (addEnvironmentGuards_guarded t)
  unfold transform
  rcases addClientDirective_eq (addMountedState (addEnvironmentGuards t)) with heq | heq
  · rwa [heq]
  · rw [heq]
    exact h.markClient

theorem transform_idle (t : Text) : Idle (transform t) := by
  have h := addMountedState_idle (addEnvironmentGuards t)
  unfold transform
  rcases addClientDirective_eq (addMountedState (addEnvironmentGuards t)) with heq | heq
  · rwa [heq]
  · rw [heq]
    exact h.markClient

/-- **The pass is idempotent**: what it wrote, it leaves alone. -/
theorem transform_idempotent (t : Text) : transform (transform t) = transform t := by
  have hguards : addEnvironmentGuards (transform t) = transform t :=
    addEnvironmentGuards_of_guarded (transform_guarded t)
  have hflag : addMountedState (transform t) = transform t := addMountedState_of_idle (transform_idle t)
  calc transform (transform t)
      = addClientDirective (addMountedState (addEnvironmentGuards (transform t))) := rfl
    _ = addClientDirective (transform t) := by rw [hguards, hflag]
    _ = transform t := addClientDirective_idempotent _

end LayeredFix.Pass.Guard
