import LayeredFix.Proofs.Config.FixedPoint
import LayeredFix.Proofs.Json.Members

/-!
# How the fields of a configuration file are merged

A compiler configuration or a manifest whose fields are objects, or count as absent, is always brought into shape
(`transform_merges`): the object in it is overridden by the fields that the pass sets, and the objects in these fields are
overridden by the fixed values. Overriding keeps the order of the old names (`Entries.Overridden`).
-/

namespace LayeredFix

namespace Pass.Config

open Entries (Overridden)
open Json (Proper maxNesting HoldsMembers)

variable {ms : Entries Json} {name : Text}

/-! ### Fields with members -/

/-- The members of the object in a field; none if there is no object. -/
def membersAt (name : Text) (ms : Entries Json) : Entries Json :=
  match Entries.get? name ms with
  | some (.object members) => members
  | _ => []

/-- What stands in a field is an object or counts as absent. -/
def ObjectOrFalsy (name : Text) (ms : Entries Json) : Prop :=
  ∀ v, Entries.get? name ms = some v → v.isFalsy = true ∨ ∃ members, v = .object members

/-- An object is taken as it is, and what counts as absent as an empty one. -/
theorem membersOf_eq_ok (h : ObjectOrFalsy name ms) (refuse : Json → ConfigError) :
    membersOf refuse (Entries.get? name ms) = .ok (membersAt name ms) := by
  unfold membersOf membersAt
  cases hget : Entries.get? name ms with
  | none => rfl
  | some v =>
    rcases h v hget with hfalsy | ⟨members, rfl⟩
    · cases v with
      | object members => rfl
      | null | bool | number | text | list => exact if_pos hfalsy
    · rfl

theorem nodup_membersAt {room : Nat} (h : Proper (room + 1) (.object ms)) (name : Text) :
    (Entries.names (membersAt name ms)).Nodup := by
  unfold membersAt
  split
  · rename_i members hget
    cases h.value hget with
    | object hnames => exact hnames
  · exact List.nodup_nil

/-! ### Fields that are set where they are missing -/

/-- Those of the entries whose names are missing. -/
def missing (newer ms : Entries Json) : Entries Json := newer.filter fun m => !Entries.has m.1 ms

/-- Other names are missing as before when a name is set. -/
theorem missing_put {newer : Entries Json} (h : name ∉ Entries.names newer) (value : Json) (ms : Entries Json) :
    missing newer (Entries.put name value ms) = missing newer ms := by
  refine List.filter_congr fun m hm => ?_
  have hne : m.1 ≠ name := ne_of_mem_of_not_mem (List.mem_map_of_mem hm) h
  rw [Entries.has_put_of_ne hne]

/-- **Setting fields where they are missing, one after the other, is merging those that are missing.** -/
theorem foldl_putIfMissing {newer : Entries Json} (h : (Entries.names newer).Nodup) (ms : Entries Json) :
    newer.foldl (fun es m => putIfMissing m.1 m.2 es) ms = Entries.merge ms (missing newer ms) := by
  induction newer generalizing ms with
  | nil => rfl
  | cons m newer ih =>
    obtain ⟨hmem, hnodup⟩ := List.nodup_cons.1 h
    rw [List.foldl_cons, ih hnodup, putIfMissing]
    cases hhas : Entries.has m.1 ms with
    | true => rw [if_pos rfl, missing, missing, List.filter_cons_of_neg (by simp [hhas])]
    | false =>
      rw [if_neg (by decide), missing_put hmem, missing, missing, List.filter_cons_of_pos (by simp [hhas])]
      rfl

/-! ### The two kinds of object -/

/-- The lists of files that a compiler configuration gets if it does not say. -/
def defaultLists : Entries Json := [("include".toList, defaultInclude), ("exclude".toList, defaultExclude)]

/-- What a compiler configuration is overridden by: its new options, and the lists of files that are missing. -/
def compilerFields (options ms : Entries Json) : Entries Json :=
  ("compilerOptions".toList, .object options) :: missing defaultLists ms

/-- What a manifest is overridden by: its new scripts and engines. -/
def manifestFields (scripts engines : Entries Json) : Entries Json :=
  [("scripts".toList, .object scripts), ("engines".toList, .object engines)]

theorem fixCompiler_eq_ok (h : ObjectOrFalsy "compilerOptions".toList ms) : fixCompiler ms =
    .ok (Entries.merge ms
      (compilerFields (Entries.merge (membersAt "compilerOptions".toList ms) compilerOptions) ms)) := by
  have hnodup : (Entries.names defaultLists).Nodup := by decide
  have hother : "compilerOptions".toList ∉ Entries.names defaultLists := by decide
  unfold fixCompiler compilerFields
  rw [membersOf_eq_ok h]
  dsimp only
  generalize Json.object (Entries.merge (membersAt "compilerOptions".toList ms) compilerOptions) = options
  have hlists := foldl_putIfMissing hnodup (Entries.put "compilerOptions".toList options ms)
  rw [missing_put hother] at hlists
  exact congrArg Except.ok hlists

theorem fixManifest_eq_ok (h : ObjectOrFalsy "scripts".toList ms) (h' : ObjectOrFalsy "engines".toList ms) :
    fixManifest ms = .ok (Entries.merge ms (manifestFields (Entries.merge (membersAt "scripts".toList ms) scripts)
      (Entries.merge (membersAt "engines".toList ms) [("node".toList, nodeVersion)]))) := by
  have hne : "engines".toList ≠ "scripts".toList := by decide
  unfold fixManifest
  rw [membersOf_eq_ok h]
  dsimp only
  rw [Entries.get?_put, if_neg hne, membersOf_eq_ok h']
  rfl

/-! ### The whole pass -/

/-- The object `ms` of a compiler configuration becomes `ms'`: its options are overridden by the fixed ones, it gets the
lists of files that it does not have, and nothing else changes. -/
def CompilerMerged (ms ms' : Entries Json) : Prop :=
  ∃ options, Overridden (membersAt "compilerOptions".toList ms) compilerOptions options ∧
    Overridden ms (compilerFields options ms) ms'

/-- The object `ms` of a manifest becomes `ms'`: its scripts are overridden by the fixed ones, the runtime version is set
among its engines, and nothing else changes. -/
def ManifestMerged (ms ms' : Entries Json) : Prop :=
  ∃ scripts' engines, Overridden (membersAt "scripts".toList ms) scripts scripts' ∧
    Overridden (membersAt "engines".toList ms) [("node".toList, nodeVersion)] engines ∧
    Overridden ms (manifestFields scripts' engines) ms'

theorem overridden_membersAt {room : Nat} (h : Proper (room + 1) (.object ms)) (name : Text) {newer : Entries Json}
    (hnewer : (Entries.names newer).Nodup) :
    Overridden (membersAt name ms) newer (Entries.merge (membersAt name ms) newer) :=
  Entries.overridden_merge (nodup_membersAt h name) hnewer

theorem nodup_compilerFields (options ms : Entries Json) : (Entries.names (compilerFields options ms)).Nodup := by
  have hnodup : ("compilerOptions".toList :: Entries.names defaultLists).Nodup := by decide
  have hsub : (Entries.names (missing defaultLists ms)).Sublist (Entries.names defaultLists) :=
    List.filter_sublist.map Prod.fst
  exact hnodup.sublist (hsub.cons_cons _)

theorem nodup_manifestFields (scripts engines : Entries Json) : (Entries.names (manifestFields scripts engines)).Nodup := by
  have hnodup : ["scripts".toList, "engines".toList].Nodup := by decide
  exact hnodup

/-- **The fields of a configuration file are merged exactly.** The object that is read from a compiler configuration or a
manifest has the members that stand in the text, of a repeated name the first place and the last value. If the fields
that the pass sets in are objects, or count as absent, the pass succeeds, and what it writes is read as the merged object.
A compiler configuration is left alone the second time. -/
theorem transform_merges {t : Text} (hparse : Json.parse t = .ok (.object ms)) :
    (∃ es, HoldsMembers t es ∧ Entries.names ms = (Entries.names es).eraseDups ∧
      ∀ name, Entries.get? name ms = Entries.get? name es.reverse) ∧
    (sniff t = some .compiler → ObjectOrFalsy "compilerOptions".toList ms → ∃ out ms', transform t = .ok out ∧
      Json.parse out = .ok (.object ms') ∧ CompilerMerged ms ms' ∧ transform out = .ok out) ∧
    (sniff t = some .manifest → ObjectOrFalsy "scripts".toList ms → ObjectOrFalsy "engines".toList ms →
      ∃ out ms', transform t = .ok out ∧ Json.parse out = .ok (.object ms') ∧ ManifestMerged ms ms') := by
  have hproper : Proper maxNesting (.object ms) := Json.proper_of_parse hparse
  have hnodup : (Entries.names ms).Nodup := by
    cases hproper with
    | object hnames => exact hnames
  refine ⟨Json.exists_members_of_parse hparse, fun hkind hoptions => ?_, fun hkind hscripts hengines => ?_⟩
  · have hset := fixCompiler_eq_ok hoptions
    have hout := (transform_compiler_iff hkind).2 ⟨ms, _, hparse, hset, rfl⟩
    refine ⟨_, _, hout, ((fixed_of_fixCompiler hset).proper hproper).parse_render, ?_, transform_compiler_fixed hkind hout⟩
    refine ⟨_, overridden_membersAt hproper _ (by decide), ?_⟩
    exact Entries.overridden_merge hnodup (nodup_compilerFields _ _)
  · have hset := fixManifest_eq_ok hscripts hengines
    have hout := (transform_manifest_iff hkind).2 ⟨ms, _, hparse, hset, rfl⟩
    refine ⟨_, _, hout, ((fixed_of_fixManifest hset).proper hproper).parse_render, ?_⟩
    refine ⟨_, _, overridden_membersAt hproper _ (by decide), overridden_membersAt hproper _ (by decide), ?_⟩
    exact Entries.overridden_merge hnodup (nodup_manifestFields _ _)

/-- The object of a compiler configuration that gives one of its names twice and has no options and no files. -/
def repeatingConfig : List (Text × Json) :=
  [("extends".toList, .str "a"), ("compilerOptions".toList, .null), ("extends".toList, .str "b"), ("exclude".toList, .null)]

/-- The object of a manifest with a script of its own, one that is overridden, and no engines. -/
def scriptedManifest : Entries Json :=
  [("scripts".toList, .object [("test".toList, .str "jest"), ("dev".toList, .str "vite")]), ("engines".toList, .bool false)]

theorem transform_merges_repeatingConfig :
    (∃ out ms', transform (dump repeatingConfig) = .ok out ∧ Json.parse out = .ok (.object ms') ∧
      CompilerMerged (Entries.ofList repeatingConfig) ms' ∧ transform out = .ok out) ∧
    ∃ out ms', transform (dump scriptedManifest) = .ok out ∧ Json.parse out = .ok (.object ms') ∧
      ManifestMerged scriptedManifest ms' := by
  have hfits : Json.Fits maxNesting (.object repeatingConfig) := by
    refine .object fun m hm => ?_
    simp only [repeatingConfig, List.mem_cons, List.not_mem_nil, or_false] at hm
    rcases hm with rfl | rfl | rfl | rfl
    · exact .text _
    · exact .null
    · exact .text _
    · exact .null
  have hparse : Json.parse (dump repeatingConfig) = .ok (.object (Entries.ofList repeatingConfig)) :=
    Json.parse_render hfits
  have hkind : sniff (dump repeatingConfig) = some .compiler := by decide +kernel
  have hoptions : ObjectOrFalsy "compilerOptions".toList (Entries.ofList repeatingConfig) := by
    intro v hv
    obtain rfl : .null = v := Option.some.inj hv
    exact Or.inl rfl
  have hproper : Proper maxNesting (.object scriptedManifest) := by
    refine .object (by decide) (List.forall_mem_cons.2 ⟨.object (by decide) ?_, List.forall_mem_singleton.2 (.bool _)⟩)
    exact List.forall_mem_cons.2 ⟨.text _, List.forall_mem_singleton.2 (.text _)⟩
  have hkind' : sniff (dump scriptedManifest) = some .manifest := by decide +kernel
  have hscripts : ObjectOrFalsy "scripts".toList scriptedManifest := fun v hv => Or.inr ⟨_, (Option.some.inj hv).symm⟩
  have hengines : ObjectOrFalsy "engines".toList scriptedManifest := by
    intro v hv
    obtain rfl : .bool false = v := Option.some.inj hv
    exact Or.inl rfl
  exact ⟨(transform_merges hparse).2.1 hkind hoptions, (transform_merges hproper.parse_render).2.2 hkind' hscripts hengines⟩

end Pass.Config

end LayeredFix
