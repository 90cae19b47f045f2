import LayeredFix.Proofs.Config.FixedPoint
import LayeredFix.Proofs.Guard.Leading
import LayeredFix.Proofs.Run.Imports

/-!
# The mark of client code in a run

A mark that leads a text must stay in the lead, or the whole file is read as code for the server. The layers keep it there
but for two: the one for configuration files throws the text of a framework configuration away, and the one for component
code puts the import of hooks in front (`run_keeps_lead_iff`). The others only spell words in another way, or put in text
where it makes no difference, if the lines up to the mark open nothing that they look for (`Quiet`).
-/

namespace LayeredFix

open Pass Convention Component
open Text (Respelled)

/-! ### Entities -/

/-- Decoding spells entities in another way. -/
theorem respelled_decode (t : Text) : Respelled Unread t (Entity.decode t) := by
  have hmeaning : ∀ r ∈ Entity.plainRules, r.meaning ≠ [] ∧ ∀ c ∈ "\n*/".toList, c ∉ r.meaning := by decide
  have hbody : ∀ c ∈ "\n*/".toList, c ≠ '&' ∧ Entity.isBody c = false := by decide
  induction hn : t.length using Nat.strong_induction_on generalizing t with
  | _ n ih =>
    subst hn
    cases t with
    | nil =>
      rw [Entity.decode_nil]
      exact .nil
    | cons c t =>
      by_cases hamp : c = '&'
      · subst hamp
        obtain ⟨w, rest, m, rfl, hw, hm, hdecode⟩ := Entity.decode_ampersand t
        have hm' : m ≠ [] ∧ ∀ c ∈ "\n*/".toList, c ∉ m := by
          rcases hm with rfl | ⟨r, hr, rfl⟩
          · decide
          · exact hmeaning r hr
        rw [hdecode]
        refine .word (w := '&' :: w) ⟨⟨'&', w, rfl, by decide⟩, hm'.1, fun c hc => ⟨?_, hm'.2 c hc⟩, '&', by decide, by simp⟩
          (ih rest.length (by simp only [List.length_cons, List.length_append]; omega) rest rfl)
        exact List.not_mem_cons_of_ne_of_not_mem (hbody c hc).1 (Entity.notMem_of_isBody hw (hbody c hc).2)
      · rw [Entity.decode_cons hamp]
        exact .keep c (ih t.length (by simp) t rfl)

theorem leads_entities {t : Text} (h : leads t = true) : leads (Entity.transform t) = true := by
  unfold Entity.transform
  split
  · rw [Entity.apply_foldl_collapse]
    exact leads_respelled (respelled_decode t) h
  · exact h

/-! ### Lists and images -/

/-- Lines that hold no beginning of a match stay the first ones. -/
theorem heads_replaceFrom {h t x : Text} {p : Pattern} {f : Hit → Text}
    (hp : ∀ behind t hit, p.hit? behind t = some hit → x <+: hit.text) (hline : '\n' ∉ x) (hh : ¬ x <:+: h) (behind : Text)
    (ht : Heads h t) : Heads h (p.replaceFrom f behind t) := by
  have hbegins {behind t : Text} {hit : Hit} (hhit : p.hit? behind t = some hit) : x <+: t := by
    obtain ⟨rest, hrest⟩ := Pattern.text_hit? hhit
    exact (hp _ _ _ hhit).trans ⟨rest, hrest.symm⟩
  obtain ⟨r, rfl, hr⟩ := ht
  have hskips : p.Skips behind h r := by
    rintro u v rfl -
    refine Option.eq_none_iff_forall_ne_some.2 fun hit hhit => hh (List.IsInfix.trans ?_ (List.suffix_append u v).isInfix)
    have hpre := hbegins hhit
    rcases r with _ | ⟨d, r⟩
    · rw [List.append_nil] at hpre
      exact hpre.isInfix
    · obtain rfl : d = '\n' := by simpa using hr
      exact (Text.prefix_of_notMem hpre hline).isInfix
  rw [Pattern.replaceFrom_append hskips]
  refine ⟨_, rfl, ?_⟩
  rcases r with _ | ⟨d, r⟩
  · rw [Pattern.replaceFrom_nil]
    rfl
  · obtain rfl : d = '\n' := by simpa using hr
    rw [Pattern.replaceFrom_cons_of_none]
    · rfl
    · -- The match would begin with the newline, or with nothing.
      refine Option.eq_none_iff_forall_ne_some.2 fun hit hhit => ?_
      have hpre : x <+: [] ++ '\n' :: r := hbegins hhit
      rw [List.prefix_nil.1 (Text.prefix_of_notMem hpre hline)] at hh
      exact hh (List.nil_infix)

/-- Keys and alternative texts are put in behind lines without lists and images. -/
theorem heads_addMissing {front h : Text} (hfront : Guard.IsFront front) (hlists : ¬ ".map(".toList <:+: h)
    (himages : ¬ "<img".toList <:+: h) :
    Text.KeepsBehind front (Heads h) fun t => addMissingAlt (addMissingKeys t) := by
  have hkeys : Text.KeepsBehind front (Heads h) fun t => keyRules.foldl (fun t r => r.apply t) t := by
    refine Text.keepsBehind_foldl fun r hr t ht => ?_
    have hopening {behind t : Text} {hit : Hit} (hh : r.pattern.hit? behind t = some hit) : ".map(".toList <+: hit.text :=
      (r.answer hr hh).opening
    exact ⟨_, Pattern.replace_append (hfront.skips (n := '.') (by decide) (by decide) (by decide)
      (fun _ _ _ => hopening) t), heads_replaceFrom (fun _ _ _ => hopening) (by decide) hlists _ ht⟩
  intro t ht
  obtain ⟨u, heq, hu⟩ := hkeys t ht
  have hopening {behind t : Text} {hit : Hit} (hh : imageTag.hit? behind t = some hit) : "<img".toList <+: hit.text :=
    Pattern.prefix_of_hit?_seq_text hh
  have himage : Heads h (imageTag.replaceFrom giveAlt front.reverse u) :=
    heads_replaceFrom (fun _ _ _ => hopening) (by decide) himages _ hu
  refine ⟨_, ?_, himage⟩
  exact (congrArg addMissingAlt heq).trans (Pattern.replace_append (hfront.skips (n := '<') (by decide) (by decide)
    (by decide) (fun _ _ _ => hopening) u))

/-! ### Lines that open nothing -/

/-- Whether a word of the flag may begin a text: a declaration of state, or a return with a bracket or nothing behind it. -/
def opensFlag (t : Text) : Bool :=
  "const [".toList.isPrefixOf t ||
    "return".toList.isPrefixOf t && (Text.trimLeft (t.drop "return".length)).head?.all (· == '(')

/-- The lines of a text up to the mark open no list and no image, and they open what the flag is put in for only inside of
block comments. -/
structure Quiet (h : Text) : Prop where
  /-- No list is rendered. -/
  lists : ¬ ".map(".toList <:+: h
  /-- No image is shown. -/
  images : ¬ "<img".toList <:+: h
  /-- The words of the flag stand inside of block comments. -/
  flag : ∀ a k, h = a ++ k → opensFlag k = true → endsInComment false (Text.lines a) = true

theorem quiet_iff {h : Text} : Quiet h ↔ ¬ ".map(".toList <:+: h ∧ ¬ "<img".toList <:+: h ∧
    ∀ i ∈ List.range (h.length + 1), opensFlag (h.drop i) = true → endsInComment false (Text.lines (h.take i)) = true := by
  constructor
  · exact fun hq => ⟨hq.lists, hq.images, fun i _ => hq.flag _ _ (List.take_append_drop i h).symm⟩
  · rintro ⟨hlists, himages, hflag⟩
    refine ⟨hlists, himages, ?_⟩
    rintro a k rfl hk
    have hi := hflag a.length (List.mem_range.2 (by rw [List.length_append]; omega))
    rw [List.drop_left, List.take_left] at hi
    exact hi hk

instance decidableQuiet : DecidablePred Quiet := fun _ => decidable_of_iff' _ quiet_iff

theorem opensFlag_of_flagWord {x z k r : Text} (hx : Guard.FlagWord x) (h : x ++ z = k ++ r)
    (hr : r.head?.all (· == '\n') = true) : opensFlag k = true := by
  have hpre {w : Text} (hline : '\n' ∉ w) (hw : w <+: k ++ r) : w <+: k := by
    rcases r with _ | ⟨d, r⟩
    · rwa [List.append_nil] at hw
    · obtain rfl : d = '\n' := by simpa using hr
      exact Text.prefix_of_notMem hw hline
  rw [opensFlag, Bool.or_eq_true, Bool.and_eq_true, List.isPrefixOf_iff_prefix, List.isPrefixOf_iff_prefix]
  cases hx with
  | declaration => exact Or.inl (hpre (by decide) ⟨z, h⟩)
  | @render blanks hblanks =>
    rw [List.append_assoc, List.append_assoc] at h
    obtain ⟨k', rfl⟩ := hpre (w := "return".toList) (by decide) ⟨_, h⟩
    rw [List.append_assoc, List.append_cancel_left_eq] at h
    refine Or.inr ⟨List.prefix_append _ _, ?_⟩
    have hdrop : ("return".toList ++ k').drop "return".length = k' := rfl
    rw [hdrop]
    by_cases hnil : Text.trimLeft k' = []
    · rw [hnil]
      rfl
    · have htrim := congrArg Text.trimLeft h
      rw [Text.trimLeft_append hnil] at htrim
      have hbracket : Text.trimLeft (blanks ++ (['('] ++ z)) = '(' :: z := by
        rw [Text.trimLeft, List.dropWhile_append_of_pos hblanks]
        rfl
      rw [hbracket] at htrim
      obtain ⟨d, v, hv⟩ := List.exists_cons_of_ne_nil hnil
      rw [hv] at htrim ⊢
      obtain ⟨rfl, -⟩ := List.cons.inj htrim
      rfl

/-- Behind such lines that a mark leads, nothing that is put in makes a difference to that. -/
theorem Quiet.steady {h t : Text} (hquiet : Quiet h) (hled : leads h = true) (ht : Heads h t) : Guard.Steady t := by
  refine ⟨ht.leads hled, fun a x z heq hx => ?_⟩
  obtain ⟨r, rfl, hr⟩ := ht
  rcases List.append_eq_append_iff.1 heq with ⟨k, rfl, hk⟩ | ⟨k, rfl, hk⟩
  · rcases k with _ | ⟨d, k⟩
    · have hword : x ++ z = [] ++ r := hk.symm
      exact Or.inr (hquiet.flag (h ++ []) [] (by simp) (opensFlag_of_flagWord hx hword hr))
    · rw [hk] at hr
      obtain rfl : d = '\n' := by simpa using hr
      exact Or.inl ⟨h, k, rfl, hled⟩
  · exact Or.inr (hquiet.flag a k rfl (opensFlag_of_flagWord hx hk hr))

/-! ### The layers -/

/-- A text that a mark leads is no JSON object, so it is left alone unless it looks like a framework configuration. -/
theorem configured_of_leads {t : Text} (ht : leads t = true) (hkind : Config.sniff t ≠ some .framework) :
    configured t = t := by
  have hobject : ((Text.trimLeft t).head? == some '\x7b') = false := by
    obtain ⟨d, hd, hhead⟩ := head?_of_leads ht
    have hall : ∀ d ∈ "/'\"".toList, (some d == some '\x7b') = false := by decide
    rw [hhead]
    exact hall d hd
  have hnone : Config.sniff t = none := by
    unfold Config.sniff at hkind ⊢
    dsimp only at hkind ⊢
    rw [hobject, Bool.false_and, if_neg (by decide)] at hkind ⊢
    split at hkind
    · exact absurd rfl hkind
    · rename_i h
      rw [if_neg h, Bool.false_and, if_neg (by decide)]
  refine configured_of_ok ?_
  rw [Config.transform, Config.apply, hnone]
  rfl

/-- An import of hooks is read as code in front of the mark. -/
theorem not_leads_hookImport (hooks : List String) (t : Text) : leads (hookImport hooks ++ t) = false := by
  refine Bool.eq_false_iff.2 fun h => ?_
  obtain ⟨d, hd, hhead⟩ := head?_of_leads h
  obtain ⟨r, hr⟩ : ∃ r, hookImport hooks = 'i' :: r := ⟨_, (hookImport_eq hooks).trans rfl⟩
  rw [hr, List.cons_append, Text.trimLeft, List.dropWhile_cons_of_neg (by decide)] at hhead
  obtain rfl : 'i' = d := Option.some.inj hhead
  exact absurd hd (by decide)

theorem isFront_hookImport {hooks : List String} (hhooks : ∀ hook ∈ hooks, hook ∈ knownHooks) :
    Guard.IsFront (hookImport hooks) := by
  obtain ⟨x, hx⟩ := exists_hookImport_eq_append hooks
  have hdot : '.' ∉ hookImport hooks := notMem_hookImport hhooks (by decide) (by decide) (by decide)
  have htag : '<' ∉ hookImport hooks := notMem_hookImport hhooks (by decide) (by decide) (by decide)
  have hn : 'n' ∉ hookImport hooks := notMem_hookImport hhooks (by decide) (by decide) (by decide)
  rw [hx] at hdot htag hn
  refine Or.inr ⟨x, hx, ?_⟩
  simpa using ⟨fun h => hdot (List.mem_append_left _ h), fun h => htag (List.mem_append_left _ h),
    fun h => hn (List.mem_append_left _ h)⟩

/-- Behind the front that the imports leave, the mark keeps the lead. -/
theorem guarded_of_leads {front t : Text} (hfront : Guard.IsFront front) (ht : leads (decoded t) = true)
    (hquiet : Quiet (header (decoded t))) (himports : addMissingImports (decoded t) = front ++ decoded t) :
    ∃ t', guarded t = front ++ t' ∧ leads t' = true := by
  have hled : leads (header (decoded t)) = true := (leads_header _).trans ht
  obtain ⟨t₁, hadd, hheads⟩ := heads_addMissing hfront hquiet.lists hquiet.images _ (heads_header (decoded t))
  have hrepaired : repaired t = front ++ t₁ := by
    rw [repaired, Component.transform, himports]
    exact hadd
  obtain ⟨t₂, hguards, hsteady⟩ := hfront.steady_guards t₁ (hquiet.steady hled hheads)
  obtain ⟨t₃, hflag, hled₃⟩ := hfront.addMountedState_leads hsteady
  refine ⟨t₃, ?_, hled₃⟩
  have hmark : Guard.hasClientDirective (front ++ t₃) = true :=
    hasClientDirective_of_part (hasClientDirective_of_leads hled₃) (List.suffix_append _ _).isInfix
  rw [guarded, Guard.transform, hrepaired, hguards, hflag, Guard.addClientDirective, if_pos hmark]

/-- What takes the place of a framework configuration holds nothing that the other layers look for, and no mark leads it. -/
theorem frameworkTemplate_free {u : Text} (hu : u = Config.frameworkTemplate) :
    Text.occursIn ['&'] u = false ∧ hooksCalled u = [] ∧ Text.occursIn ".map(".toList u = false ∧
      Text.occursIn "<img".toList u = false ∧ (∀ r ∈ Guard.hostRules, Text.occursIn r.reference.toList u = false) ∧
      Text.anyOccursIn Guard.hostMarkers u = false ∧ Text.anyOccursIn Guard.interactivitySignals u = false ∧
      leads u = false := by
  -- Written out character by character, as it takes long to read them off the strings.
  unfold Config.frameworkTemplate at hu
  simp only [String.toList_append, List.append_assoc, String.reduceToList] at hu
  subst hu
  decide +kernel

/-- It is what remains of the text of a framework configuration. -/
theorem guarded_of_framework {t : Text} (hkind : Config.sniff t = some .framework) :
    guarded t = Config.frameworkTemplate ∧ leads Config.frameworkTemplate = false := by
  obtain ⟨u, hu⟩ : ∃ u, u = Config.frameworkTemplate := ⟨_, rfl⟩
  obtain ⟨hentity, hcalls, hlist, himage, hreferences, hmarkers, hsignals, hled⟩ := frameworkTemplate_free hu
  have hconfigured : configured t = u := configured_of_ok (by
    rw [Config.transform, Config.apply_framework hkind, ← hu]
    rfl)
  have himages : addMissingAlt u = u := by
    refine Pattern.replace_of_absent fun a v hav => Option.eq_none_iff_forall_ne_some.2 fun hit hh => ?_
    obtain ⟨rest, hv⟩ := Pattern.text_hit? hh
    refine Text.occursIn_eq_false_iff.1 himage ?_
    rw [hav, hv]
    exact ((Pattern.prefix_of_hit?_seq_text hh).trans (List.prefix_append _ rest)).isInfix.trans
      (List.suffix_append a _).isInfix
  have hguarded : Guard.Guarded u :=
    fun r hr => Guard.absent_of_not_infix hr (Text.occursIn_eq_false_iff.1 (hreferences r hr))
  have hmarked : Guard.addClientDirective u = u := by
    rw [Guard.addClientDirective, hsignals]
    simp
  rw [← hu]
  refine ⟨?_, hled⟩
  rw [guarded, repaired, decoded, hconfigured, Entity.transform, hentity, if_neg (by decide), Component.transform,
    addMissingImports_of_not_lacks fun h => h.known hcalls, addMissingKeys_of_flat (Text.occursIn_eq_false_iff.1 hlist), himages,
    Guard.transform, Guard.addEnvironmentGuards_of_guarded hguarded, Guard.addMountedState_of_idle (Or.inl hmarkers), hmarked]

variable {τ : Type} [Sub τ] [LT τ] [DecidableLT τ]

/-- **A mark that leads a text keeps the lead** through the first four layers, if the lines up to it are quiet, just if the
text is not taken for a framework configuration and lacks no import of hooks. -/
theorem run_keeps_lead_iff {s : Service} (hs : s.registry = Layer.standard) {t : Text} (ht : leads t = true)
    (hquiet : Quiet (header (decoded t))) (now : τ) (c : Cache τ) (r : Recorder) :
    leads (s.run now (.firstFour t) c r).1.1.output = true ↔
      Config.sniff t ≠ some .framework ∧ ¬ LacksImport (decoded t) := by
  rw [(run_firstFour hs t now c r).2]
  by_cases hkind : Config.sniff t = some .framework
  · obtain ⟨htemplate, hled⟩ := guarded_of_framework hkind
    rw [htemplate, hled]
    simp [hkind]
  · have hled : leads (decoded t) = true := by
      rw [decoded, configured_of_leads ht hkind]
      exact leads_entities ht
    by_cases hlacks : LacksImport (decoded t)
    · have hhooks : ∀ hook ∈ hooksCalled (decoded t), hook ∈ knownHooks := fun hook hmem => (mem_hooksCalled.1 hmem).1
      obtain ⟨t', heq, -⟩ := guarded_of_leads (isFront_hookImport hhooks) hled hquiet (addMissingImports_of_lacks hlacks)
      rw [heq, not_leads_hookImport]
      simp [hlacks]
    · obtain ⟨t', heq, hled'⟩ := guarded_of_leads (Or.inl rfl) hled hquiet (addMissingImports_of_not_lacks hlacks)
      rw [heq, List.nil_append]
      simp [hled', hkind, hlacks]

/-- A text that a mark leads, below a comment with an example, with an import and with state that reads the host. -/
def markedState : Text :=
  ["/* Ends in\n", "   return (a) */\n", "'use client';\n", "import \x7b useState \x7d ", "from 'react';\n",
   "const [a, setA] = ", "useState(window.b);\n", "return (a);"].flatMap String.toList

theorem run_keeps_lead_markedState : leads markedState = true ∧ Quiet (header (decoded markedState)) ∧
    leads (firstRecord markedState).output = true := by
  have hkind : Config.sniff markedState = none := by decide +kernel
  have hled : leads markedState = true := by decide +kernel
  have hdecoded : decoded markedState = markedState := by
    rw [decoded, configured_of_leads hled (by rw [hkind]; decide), Entity.transform]
    exact if_neg (by decide +kernel)
  have hquiet : Quiet (header (decoded markedState)) := by
    rw [hdecoded]
    decide +kernel
  have himport : ¬ LacksImport (decoded markedState) := fun h => by
    have hreact : (importStatement.hits markedState).any (fun h => Text.occursIn "react".toList h.text) = true := by
      decide +kernel
    rw [← hdecoded, h.imports] at hreact
    cases hreact
  refine ⟨hled, hquiet, (run_keeps_lead_iff (s := standardService) rfl hled hquiet (0 : Int) (.empty 300) (.idle false)).2 ?_⟩
  exact ⟨by rw [hkind]; decide, himport⟩

/-- A mark in front of state whose hook is not imported. -/
def markedCall : Text := "'use client';\nconst [a, setA] = useState(0);".toList

/-- **The mark may lose the lead**: an import of hooks is put in front of it. -/
theorem run_loses_lead : leads markedCall = true ∧ leads (firstRecord markedCall).output = false := by
  have hok : Config.transform markedCall = .ok markedCall := by decide +kernel
  rw [output_firstRecord hok]
  decide +kernel

end LayeredFix
