import LayeredFix.Proofs.Component.Inside
import LayeredFix.Proofs.Config.Document
import LayeredFix.Proofs.Entity.Inside
import LayeredFix.Proofs.Guard.Inside
import LayeredFix.Proofs.Run.Standard

/-!
# JSON documents in a run

The layers for entities, for component code and for host guards read a text as text, also where it is a JSON object that
the first layer has just written. What they change without adding a mark, a quote or the end of a statement, they change
inside of strings, so the object can still be read (`run_keeps_documents`). Where they add one it may not be
(`run_breaks_document`).
-/

namespace LayeredFix

open Json (Mild codeMarks outline maxNesting)

/-- An object that was written, and what the passes after it do without adding a mark. -/
theorem parse_of_mild {y u z : Text} {ms : Entries Json} (hfits : Json.Fits maxNesting (.object ms))
    (hy : y = Json.render (.object ms)) (hu : Mild ['"'] y u) (hz : Mild codeMarks u z)
    (hquotes : z.count '"' ≤ y.count '"') (hstatements : z.count ';' ≤ u.count ';') :
    ∃ ms', Json.parse z = .ok (.object ms') := by
  have hle := hu.grows '"' (by simp)
  have hle' := hz.grows '"' (by decide)
  have hrender := Json.outline_render hfits
  rw [← hy] at hrender
  have hmiddle := hu.keeps (by simpa using hle'.trans hquotes) _ _ hrender
  have hmarks : ∀ d ∈ codeMarks, z.count d ≤ u.count d :=
    List.forall_mem_cons.2 ⟨hquotes.trans hle, List.forall_mem_singleton.2 hstatements⟩
  refine Json.parse_of_outline hfits ?_
  rw [hz.keeps hmarks _ _ hmiddle, ← hrender, hy]

variable {τ : Type} [Sub τ] [LT τ] [DecidableLT τ]

/-- **A JSON object that the first layer has written can be read after the first four layers**, if the three layers
after it add no quote, and the last two no end of a statement. -/
theorem run_keeps_documents {s : Service} (hs : s.registry = Layer.standard) {t y : Text}
    (hkind : Pass.Config.sniff t = some .compiler ∨ Pass.Config.sniff t = some .manifest)
    (hok : Pass.Config.transform t = .ok y) (now : τ) (c : Cache τ) (r : Recorder) :
    let full := (s.run now (.firstFour t) c r).1.1
    ∃ u v, full.outputs = [t, y, u, v, full.output] ∧
      (full.output.count '"' ≤ y.count '"' → full.output.count ';' ≤ u.count ';' →
        ∃ ms, Json.parse full.output = .ok (.object ms)) := by
  intro full
  obtain ⟨houtputs, houtput⟩ := run_firstFour hs t now c r
  obtain ⟨ms, hy, hproper⟩ := Pass.Config.exists_dump_of_transform hkind hok
  have hu : Mild ['"'] (configured t) (decoded t) := Pass.Entity.tame_transform _
  have hz : Mild codeMarks (decoded t) (guarded t) :=
    (Pass.Component.tame_transform _).trans (Pass.Guard.tame_transform _)
  rw [configured_of_ok hok] at houtputs hu
  rw [← houtput] at houtputs hz
  exact ⟨decoded t, repaired t, houtputs, parse_of_mild hproper.fits hy hu hz⟩

/-- A service with the standard layers. -/
def standardService : Service := { registry := Layer.standard }

/-- The record of a run of the first four layers by a service with an empty cache. -/
def firstRecord (t : Text) : RunRecord := (standardService.run (0 : Int) (.firstFour t) (.empty 300) (.idle false)).1.1

theorem output_firstRecord {t y : Text} (hok : Pass.Config.transform t = .ok y) :
    (firstRecord t).output = Pass.Guard.transform (Pass.Component.transform (Pass.Entity.transform y)) := by
  obtain ⟨-, houtput⟩ := run_firstFour (s := standardService) rfl t (0 : Int) (.empty 300) (.idle false)
  rw [← configured_of_ok hok]
  exact houtput

/-- A manifest with a note. -/
def noted (note : String) : Entries Json := [("scripts".toList, .object []), ("note".toList, .str note)]

/-- The manifest with its fields set. -/
def notedFixed (note : String) : Entries Json :=
  [("scripts".toList, .object (Entries.merge [] Pass.Config.scripts)), ("note".toList, .str note),
   ("engines".toList, .object [("node".toList, Pass.Config.nodeVersion)])]

theorem transform_noted {note : String} (hkind : Pass.Config.sniff (Pass.Config.dump (noted note)) = some .manifest) :
    Pass.Config.transform (Pass.Config.dump (noted note)) = .ok (Pass.Config.dump (notedFixed note)) := by
  have hnames : ["scripts".toList, "note".toList].Nodup := by decide
  have hproper : Json.Proper maxNesting (.object (noted note)) := by
    refine .object hnames (List.forall_mem_cons.2 ⟨.object List.nodup_nil (by simp), ?_⟩)
    exact List.forall_mem_singleton.2 (.text _)
  have hparse : Json.parse (Pass.Config.dump (noted note)) = .ok (.object (noted note)) := hproper.parse_render
  unfold Pass.Config.transform Pass.Config.apply
  rw [hkind]
  simp only [Pass.Config.fixObject, Pass.Config.loadObject, hparse]
  rfl

theorem run_keeps_documents_noted : ∃ y u v, Pass.Config.transform (Pass.Config.dump (noted "a note")) = .ok y ∧
    (firstRecord (Pass.Config.dump (noted "a note"))).outputs =
      [Pass.Config.dump (noted "a note"), y, u, v, (firstRecord (Pass.Config.dump (noted "a note"))).output] ∧
    ∃ ms, Json.parse (firstRecord (Pass.Config.dump (noted "a note"))).output = .ok (.object ms) := by
  have hkind : Pass.Config.sniff (Pass.Config.dump (noted "a note")) = some .manifest := by decide
  have hok := transform_noted hkind
  obtain ⟨u, v, houtputs, hparse⟩ := run_keeps_documents (s := standardService) rfl (Or.inr hkind) hok (0 : Int)
    (.empty 300) (.idle false)
  -- No rule for the host has its reference in the object, and no other layer finds anything.
  obtain ⟨hnone, hcode, hrest⟩ : (∀ r ∈ Pass.Guard.hostRules,
        Text.occursIn r.reference.toList (Pass.Config.dump (notedFixed "a note")) = false) ∧
      Pass.Component.transform (Pass.Entity.transform (Pass.Config.dump (notedFixed "a note"))) =
        Pass.Config.dump (notedFixed "a note") ∧
      Pass.Guard.addClientDirective (Pass.Guard.addMountedState (Pass.Config.dump (notedFixed "a note"))) =
        Pass.Config.dump (notedFixed "a note") := by decide +kernel
  have hguarded : Pass.Guard.Guarded (Pass.Config.dump (notedFixed "a note")) :=
    fun r hr => Pass.Guard.absent_of_not_infix hr (Text.occursIn_eq_false_iff.1 (hnone r hr))
  have hsame : Pass.Guard.transform (Pass.Component.transform (Pass.Entity.transform
      (Pass.Config.dump (notedFixed "a note")))) = Pass.Config.dump (notedFixed "a note") := by
    rw [hcode, Pass.Guard.transform, Pass.Guard.addEnvironmentGuards_of_guarded hguarded, hrest]
  have houtput := (output_firstRecord hok).trans hsame
  have hnone : (firstRecord (Pass.Config.dump (noted "a note"))).output.count ';' = 0 := by
    rw [houtput]
    decide +kernel
  refine ⟨_, u, v, hok, houtputs, hparse ?_ ?_⟩
  · exact (congrArg (List.count '"') houtput).le
  · exact hnone.le.trans (Nat.zero_le _)

/-- **The object may be broken**: where a string names something of the host, the last layer puts a guard with quotes
into the string. -/
theorem run_breaks_document : ∃ y, Pass.Config.sniff (Pass.Config.dump (noted "window.name")) = some .manifest ∧
    Pass.Config.transform (Pass.Config.dump (noted "window.name")) = .ok y ∧
    ∀ ms, Json.parse (firstRecord (Pass.Config.dump (noted "window.name"))).output ≠ .ok (.object ms) := by
  have hkind : Pass.Config.sniff (Pass.Config.dump (noted "window.name")) = some .manifest := by decide
  have hok := transform_noted hkind
  have hcode : Pass.Component.transform (Pass.Entity.transform (Pass.Config.dump (notedFixed "window.name"))) =
      Pass.Config.dump (notedFixed "window.name") := by decide +kernel
  have hbroken : (Json.parse (Pass.Guard.transform (Pass.Config.dump (notedFixed "window.name")))).isOk = false := by
    decide +kernel
  refine ⟨_, hkind, hok, fun ms hparse => ?_⟩
  rw [output_firstRecord hok, hcode] at hparse
  rw [hparse] at hbroken
  cases hbroken

end LayeredFix
