import LayeredFix.Proofs.Config.Fields

/-!
# What is written for a configuration file

A compiler configuration or a manifest is read, its fields are set, and it is written again (`Rewritten`). What is
written can be read, and reading takes back writing (`loadObject_dump`).
-/

namespace LayeredFix.Pass.Config

open Json (Proper maxNesting)

/-- A file that holds an object, and the file with the fields of the object set. -/
structure Rewritten (fix : Entries Json → Except ConfigError (Entries Json)) (t out : Text) (ms ms' : Entries Json) :
    Prop where
  /-- The object in the file. -/
  parsed : Json.parse t = .ok (.object ms)
  /-- The object with its fields set. -/
  set : fix ms = .ok ms'
  /-- What is written. -/
  written : out = dump ms'

/-- The pass gives a text just where it has no error of its own. -/
theorem transform_eq_ok {t out : Text} : transform t = .ok out ↔ apply t = .ok out := by
  unfold transform
  cases apply t with
  | error e =>
    constructor
    · intro h
      cases h
    · intro h
      cases h
  | ok out' =>
    constructor
    · intro h
      exact congrArg _ (Except.ok.inj h)
    · intro h
      exact congrArg _ (Except.ok.inj h)

theorem loadObject_eq_ok {t label : Text} {ms : Entries Json} :
    loadObject t label = .ok ms ↔ Json.parse t = .ok (.object ms) := by
  unfold loadObject
  constructor
  · intro h
    split at h
    · cases h
    · rename_i hparse
      obtain rfl := Except.ok.inj h
      exact hparse
    · cases h
  · intro h
    rw [h]

theorem fixObject_eq_ok {label : String} {fix : Entries Json → Except ConfigError (Entries Json)} {t out : Text} :
    fixObject label fix t = .ok out ↔ ∃ ms ms', Rewritten fix t out ms ms' := by
  unfold fixObject
  constructor
  · intro h
    split at h
    · cases h
    · rename_i ms hload
      split at h
      · cases h
      · rename_i ms' hfix
        exact ⟨ms, ms', loadObject_eq_ok.1 hload, hfix, (Except.ok.inj h).symm⟩
  · rintro ⟨ms, ms', hparse, hfix, rfl⟩
    rw [loadObject_eq_ok.2 hparse]
    dsimp only
    rw [hfix]

/-- What the pass does to a compiler configuration ... -/
theorem transform_compiler_iff {t out : Text} (hkind : sniff t = some .compiler) :
    transform t = .ok out ↔ ∃ ms ms', Rewritten fixCompiler t out ms ms' := by
  rw [transform_eq_ok, apply, hkind]
  exact fixObject_eq_ok

/-- ... and to a manifest. -/
theorem transform_manifest_iff {t out : Text} (hkind : sniff t = some .manifest) :
    transform t = .ok out ↔ ∃ ms ms', Rewritten fixManifest t out ms ms' := by
  rw [transform_eq_ok, apply, hkind]
  exact fixObject_eq_ok

/-- What is written for a compiler configuration or a manifest is an object that can be read. -/
theorem exists_dump_of_transform {t out : Text} (hkind : sniff t = some .compiler ∨ sniff t = some .manifest)
    (h : transform t = .ok out) : ∃ ms, out = dump ms ∧ Proper maxNesting (.object ms) := by
  rcases hkind with hkind | hkind
  · obtain ⟨ms, ms', hparse, hset, rfl⟩ := (transform_compiler_iff hkind).1 h
    exact ⟨ms', rfl, (fixed_of_fixCompiler hset).proper (Json.proper_of_parse hparse)⟩
  · obtain ⟨ms, ms', hparse, hset, rfl⟩ := (transform_manifest_iff hkind).1 h
    exact ⟨ms', rfl, (fixed_of_fixManifest hset).proper (Json.proper_of_parse hparse)⟩

/-! ### Reading and writing an object -/

/-- **Reading an object takes back writing it**, for just the objects that can be read: those that nest no deeper than the
reader goes, whose numbers can be written, and that have each name once. So what is written for an object that has been
read is written again when it is read. -/
theorem loadObject_dump (label : Text) :
    (∀ ms, loadObject (dump ms) label = .ok ms ↔ Proper maxNesting (.object ms)) ∧
    (∀ ms, (∃ t, loadObject t label = .ok ms) ↔ Proper maxNesting (.object ms)) ∧
    ∀ t out, (loadObject t label).map dump = .ok out → (loadObject out label).map dump = .ok out := by
  have hproper {t : Text} {ms : Entries Json} (h : loadObject t label = .ok ms) : Proper maxNesting (.object ms) :=
    Json.proper_of_parse (loadObject_eq_ok.1 h)
  have hback {ms : Entries Json} (h : Proper maxNesting (.object ms)) : loadObject (dump ms) label = .ok ms :=
    loadObject_eq_ok.2 h.parse_render
  refine ⟨fun ms => ⟨hproper, hback⟩, fun ms => ⟨fun ⟨t, h⟩ => hproper h, fun h => ⟨dump ms, hback h⟩⟩, fun t out h => ?_⟩
  cases hload : loadObject t label with
  | error e =>
    rw [hload] at h
    cases h
  | ok ms =>
    rw [hload] at h
    obtain rfl : dump ms = out := Except.ok.inj h
    rw [hback (hproper hload)]
    rfl

/-- An object with values of every kind: a name that is written with escapes, a character beyond the basic plane, the
smallest number, numbers without digits, an integer beyond 64 bits, and a list and an object with nothing in them. -/
def variedObject : Entries Json :=
  [("a\"\\\n\x01".toList, .str "é😀\x7f"),
   ("".toList, .list [.null, .bool true, .int (-36893488147419103232), .list [], .object []]),
   ("x".toList, .list [.number (.real (.finite true 1 (-1074))), .number (.real .nan), .number (.real (.infinity true))])]

theorem loadObject_dump_variedObject : loadObject (dump variedObject) "file".toList = .ok variedObject ∧
    (loadObject (dump variedObject) "file".toList).map dump = .ok (dump variedObject) := by
  have hdigits : 36893488147419103232 < 10 ^ 20 := by decide
  have hlarge : 36893488147419103232 < 10 ^ Number.maxDigits :=
    hdigits.trans_le (Nat.pow_le_pow_right (by decide) (by decide))
  have hproper : Proper maxNesting (.object variedObject) := by
    refine .object (by decide) ?_
    simp only [variedObject, List.forall_mem_cons, List.not_mem_nil, false_implies, implies_true, and_true]
    refine ⟨.text _, .list ?_, .list ?_⟩
    · simp only [List.forall_mem_cons, List.not_mem_nil, false_implies, implies_true, and_true]
      exact ⟨.null, .bool _, .number hlarge, .list (by simp), .object List.nodup_nil (by simp)⟩
    · simp only [List.forall_mem_cons, List.not_mem_nil, false_implies, implies_true, and_true]
      exact ⟨.number ⟨by decide, by decide, by decide, Or.inr rfl⟩, .number trivial, .number trivial⟩
  obtain ⟨hiff, -, hagain⟩ := loadObject_dump "file".toList
  have hload := (hiff variedObject).2 hproper
  exact ⟨hload, hagain (dump variedObject) _ (by rw [hload]; rfl)⟩

end LayeredFix.Pass.Config
