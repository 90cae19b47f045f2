import LayeredFix.Pass.Config
import LayeredFix.Proofs.Json.Proper

/-!
# What becomes of the fields of a configuration file

A configuration file that is a JSON object stays one, and every field that the pass does not set is found in the new
file with its old value (`transform_keeps_fields`). A file that is taken for a framework configuration is the exception:
a template takes its place, also where the file is a JSON object (`transform_drops_fields`).
-/

namespace LayeredFix.Pass.Config

open Json (Proper maxNesting)

variable {room : Nat} {ms ms' : Entries Json}

/-! ### Fields that stay -/

/-- Every field of an object that is found in another one, apart from some names, with its value. -/
def Keeps (apart : List Text) (ms ms' : Entries Json) : Prop :=
  ∀ name v, name ∉ apart → Entries.get? name ms = some v → Entries.get? name ms' = some v

variable {apart : List Text}

theorem Keeps.refl (ms : Entries Json) : Keeps apart ms ms := fun _ _ _ h => h

theorem Keeps.trans {ms'' : Entries Json} (h : Keeps apart ms ms') (h' : Keeps apart ms' ms'') : Keeps apart ms ms'' :=
  fun name v hname hv => h' name v hname (h name v hname hv)

theorem keeps_put {name : Text} (hname : name ∈ apart) (value : Json) (ms : Entries Json) :
    Keeps apart ms (Entries.put name value ms) := by
  intro key v hkey hv
  rw [Entries.get?_put, if_neg]
  · exact hv
  · rintro rfl
    exact hkey hname

/-- A field that is set only where it is missing takes no value away. -/
theorem keeps_putIfMissing (name : Text) (value : Json) (ms : Entries Json) :
    Keeps apart ms (putIfMissing name value ms) := by
  intro key v _ hv
  unfold putIfMissing
  split
  · exact hv
  · rename_i hmissing
    rw [Entries.get?_put, if_neg]
    · exact hv
    · rintro rfl
      rw [Entries.has_eq_isSome, hv] at hmissing
      exact hmissing rfl

/-! ### Fields that can be written -/

theorem proper_strs (ss : List String) : Proper (room + 1) (.strs ss) := by
  refine .list fun x hx => ?_
  obtain ⟨s, -, rfl⟩ := List.mem_map.1 hx
  exact .text _

/-- What is set in a compiler configuration can be written. -/
theorem proper_compilerOptions : ∀ m ∈ compilerOptions, Proper (room + 2) m.2 := by
  have hpaths : Proper (room + 2) (.object [("@/*".toList, .strs ["./src/*"]), ("~/*".toList, .strs ["./public/*"])]) :=
    .object (by decide) (List.forall_mem_cons.2 ⟨proper_strs _, List.forall_mem_singleton.2 (proper_strs _)⟩)
  simp only [compilerOptions, List.forall_mem_cons, hpaths, Json.str, proper_strs, Proper.bool, Proper.text, true_and]
  simp

theorem proper_scripts : ∀ m ∈ scripts, Proper room m.2 := by
  simp only [scripts, List.forall_mem_cons, Json.str, Proper.text, true_and]
  simp

/-- The members of a field, absent or not. -/
theorem proper_membersOf {refuse : Json → ConfigError} {field : Option Json}
    (h : ∀ v, field = some v → Proper (room + 1) v) (hok : membersOf refuse field = .ok ms) : Proper (room + 1) (.object ms) := by
  have hempty : Proper (room + 1) (.object []) := .object List.nodup_nil (by simp)
  unfold membersOf at hok
  split at hok
  · exact Except.ok.inj hok ▸ hempty
  · exact Except.ok.inj hok ▸ h _ rfl
  · split at hok
    · exact Except.ok.inj hok ▸ hempty
    · cases hok

theorem proper_putIfMissing {value : Json} (name : Text) (h : Proper (room + 1) (.object ms))
    (hvalue : Proper room value) : Proper (room + 1) (.object (putIfMissing name value ms)) := by
  unfold putIfMissing
  split
  · exact h
  · exact h.put name hvalue

/-! ### The two kinds of object -/

/-- The fields that the pass sets. -/
def setFields : List Text := ["compilerOptions".toList, "scripts".toList, "engines".toList]

/-- What becomes of the members of an object: they can be written, and the fields that are not set stay. -/
structure Fixed (ms ms' : Entries Json) : Prop where
  /-- The new object can be written. -/
  proper : Proper maxNesting (.object ms) → Proper maxNesting (.object ms')
  /-- The other fields stay. -/
  keeps : Keeps setFields ms ms'

theorem fixed_of_fixCompiler (h : fixCompiler ms = .ok ms') : Fixed ms ms' := by
  unfold fixCompiler at h
  split at h
  · cases h
  · rename_i options hoptions
    obtain rfl := Except.ok.inj h
    refine ⟨fun hms => ?_, ?_⟩
    · have hold : Proper 986 (.object options) := proper_membersOf (fun v hv => hms.value hv) hoptions
      have hput := hms.put "compilerOptions".toList (hold.merge proper_compilerOptions)
      exact proper_putIfMissing _ (proper_putIfMissing _ hput (proper_strs _)) (proper_strs _)
    · have hset : "compilerOptions".toList ∈ setFields := by decide
      exact ((keeps_put hset _ ms).trans (keeps_putIfMissing _ _ _)).trans (keeps_putIfMissing _ _ _)

theorem fixed_of_fixManifest (h : fixManifest ms = .ok ms') : Fixed ms ms' := by
  unfold fixManifest at h
  split at h
  · cases h
  · rename_i old hold
    dsimp only at h
    split at h
    · cases h
    · rename_i engines hengines
      obtain rfl := Except.ok.inj h
      refine ⟨fun hms => ?_, ?_⟩
      · have hscripts : Proper 986 (.object old) := proper_membersOf (fun v hv => hms.value hv) hold
        have hmerged := hms.put "scripts".toList (hscripts.merge proper_scripts)
        have hengines : Proper 986 (.object engines) := proper_membersOf (fun v hv => hmerged.value hv) hengines
        exact hmerged.put _ (hengines.put _ (.text _))
      · have hscripts : "scripts".toList ∈ setFields := by decide
        have hengines : "engines".toList ∈ setFields := by decide
        exact (keeps_put hscripts _ ms).trans (keeps_put hengines _ _)

theorem fixObject_fixed {label : String} {fix : Entries Json → Except ConfigError (Entries Json)} {t out : Text}
    (hfix : ∀ {ms ms'}, fix ms = .ok ms' → Fixed ms ms') (hparse : Json.parse t = .ok (.object ms))
    (hout : fixObject label fix t = .ok out) :
    ∃ ms', Json.parse out = .ok (.object ms') ∧ Keeps setFields ms ms' := by
  unfold fixObject loadObject at hout
  rw [hparse] at hout
  dsimp only at hout
  split at hout
  · cases hout
  · rename_i ms' hms'
    obtain rfl := Except.ok.inj hout
    have hfixed := hfix hms'
    exact ⟨ms', (hfixed.proper (Json.proper_of_parse hparse)).parse_render, hfixed.keeps⟩

/-- **A configuration file that is a JSON object stays as it is or stays an object with the same fields**, apart from
those that the pass sets, unless it is taken for a framework configuration. -/
theorem transform_keeps_fields {t out : Text} (hparse : Json.parse t = .ok (.object ms))
    (hkind : sniff t ≠ some .framework) (hout : transform t = .ok out) :
    out = t ∨ ∃ ms', Json.parse out = .ok (.object ms') ∧ Keeps setFields ms ms' := by
  have hok : apply t = .ok out := by
    unfold transform at hout
    cases happly : apply t with
    | error e =>
      rw [happly] at hout
      cases hout
    | ok out' =>
      rw [happly] at hout
      exact congrArg _ (Except.ok.inj hout)
  unfold apply at hok
  split at hok
  · exact Or.inr (fixObject_fixed fixed_of_fixCompiler hparse hok)
  · rename_i hframework
    exact absurd hframework hkind
  · exact Or.inr (fixObject_fixed fixed_of_fixManifest hparse hok)
  · exact Or.inl (Except.ok.inj hok).symm

/-- A manifest with a field that the pass does not set. -/
def smallManifest : Entries Json := [("name".toList, .str "app"), ("scripts".toList, .object [])]

theorem transform_keeps_fields_smallManifest : ∃ out, transform (dump smallManifest) = .ok out ∧
    (out = dump smallManifest ∨ ∃ ms', Json.parse out = .ok (.object ms') ∧ Keeps setFields smallManifest ms') := by
  have hproper : Proper maxNesting (.object smallManifest) := by
    refine .object (by decide) (List.forall_mem_cons.2 ⟨.text _, List.forall_mem_singleton.2 ?_⟩)
    exact .object List.nodup_nil (by simp)
  have hparse : Json.parse (dump smallManifest) = .ok (.object smallManifest) := hproper.parse_render
  have hsniff : sniff (dump smallManifest) = some .manifest := by decide
  have hout : transform (dump smallManifest) = .ok (dump [("name".toList, .str "app"),
      ("scripts".toList, .object (Entries.merge [] scripts)), ("engines".toList, .object [("node".toList, nodeVersion)])]) := by
    unfold transform apply
    rw [hsniff]
    simp only [fixObject, loadObject, hparse]
    rfl
  exact ⟨_, hout, transform_keeps_fields hparse (by rw [hsniff]; decide) hout⟩

/-- A JSON object that names a framework configuration in one of its values. -/
def namesFramework : Entries Json := [("name".toList, .str "nextConfig")]

/-- **A JSON object may be thrown away**: where a value of the object names a framework configuration, the template takes
the place of the object. -/
theorem transform_drops_fields : ∃ out, transform (dump namesFramework) = .ok out ∧
    Json.parse (dump namesFramework) = .ok (.object namesFramework) ∧
    ¬ (out = dump namesFramework ∨ ∃ ms', Json.parse out = .ok (.object ms') ∧ Keeps setFields namesFramework ms') := by
  have hproper : Proper maxNesting (.object namesFramework) :=
    .object (by decide) (List.forall_mem_singleton.2 (.text _))
  have hsniff : sniff (dump namesFramework) = some .framework := by decide
  have hout : transform (dump namesFramework) = .ok frameworkTemplate := by
    unfold transform apply
    rw [hsniff]
    rfl
  obtain ⟨t, ht⟩ : ∃ t, frameworkTemplate = '/' :: t := by
    unfold frameworkTemplate
    simp only [String.toList_append]
    exact ⟨_, rfl⟩
  refine ⟨_, hout, hproper.parse_render, ?_⟩
  rw [ht]
  rintro (h | ⟨ms', h, -⟩)
  · cases h
  · cases h

end LayeredFix.Pass.Config
