import LayeredFix.Proofs.Guard.Hooks
import LayeredFix.Proofs.Run.Documents

/-!
# Imports of hooks in a run

The layer for component code imports the hooks that are called in the text it reads. The layers run one after the other,
so all hooks that are called after the run of the first four are imported, if the last one calls none that was not
called before (`run_imports_hooks`). It may: the flag that defers rendering calls two (`run_misses_import`).
-/

namespace LayeredFix

open Pass Component

variable {τ : Type} [Sub τ] [LT τ] [DecidableLT τ]

/-- The import of hooks stays in front, but for the mark of client code. -/
theorem guarded_front {t : Text} (h : LacksImport (decoded t)) : ∃ front rest,
    guarded t = front ++ (hookImport (hooksCalled (decoded t)) ++ rest) ∧
      importStatement.Skips [] front (hookImport (hooksCalled (decoded t)) ++ rest) := by
  obtain ⟨hooks, heq⟩ : ∃ hooks, hooks = hooksCalled (decoded t) := ⟨_, rfl⟩
  have hhooks : ∀ hook ∈ hooks, hook ∈ knownHooks := heq ▸ fun hook hmem => (mem_hooksCalled.1 hmem).1
  obtain ⟨t', ht'⟩ := transform_imports h
  obtain ⟨x, hx⟩ := exists_hookImport_eq_append hooks
  have hdot : '.' ∉ hookImport hooks := notMem_hookImport hhooks (by decide) (by decide) (by decide)
  have hn : 'n' ∉ hookImport hooks := notMem_hookImport hhooks (by decide) (by decide) (by decide)
  rw [hx, List.mem_append, not_or] at hdot hn
  rw [← heq, hx] at ht' ⊢
  rw [guarded, repaired, ht']
  obtain ⟨rest, hrest | hrest⟩ := Guard.transform_front hdot.1 hn.1 t'
  · refine ⟨[], rest, hrest, fun u v hu hv => ?_⟩
    exact absurd (List.append_eq_nil_iff.1 hu.symm).2 hv
  · have hmark : (Guard.clientDirective ++ "\n\n").toList = (Guard.clientDirective ++ "\n").toList ++ ['\n'] := by decide
    refine ⟨_, rest, hrest, ?_⟩
    rw [hmark]
    exact Pattern.skips_of_word (fun _ _ _ hh => Pattern.prefix_of_hit?_seq_text hh) (n := 'm') (by decide) (by decide)
      (by decide) [] _

/-- **The hooks that are called after the first four layers are imported**, if hooks are called and not imported before
the layer for component code, and either the last layer does not put in the flag or the hooks of the flag are called
before. -/
theorem run_imports_hooks {s : Service} (hs : s.registry = Layer.standard) {t : Text} (h : LacksImport (decoded t))
    (hflag : Guard.addMountedState (Guard.addEnvironmentGuards (repaired t)) = Guard.addEnvironmentGuards (repaired t) ∨
      ∀ hook ∈ ["useState", "useEffect"], hook ∈ hooksCalled (decoded t))
    (now : τ) (c : Cache τ) (r : Recorder) : importsHooks (s.run now (.firstFour t) c r).1.1.output = true := by
  obtain ⟨-, houtput⟩ := run_firstFour hs t now c r
  obtain ⟨front, rest, heq, hfront⟩ := guarded_front h
  rw [houtput, heq]
  refine importsHooks_hookImport (fun hook hmem => (mem_hooksCalled.1 hmem).1) hfront fun hook hmem => ?_
  rw [← heq] at hmem
  obtain ⟨hknown, hin⟩ := mem_hooksCalled.1 hmem
  have hword : (hook ++ "(").toList ∈ hookWords := List.mem_map_of_mem hknown
  rcases Guard.infix_transform hword hin with hin | ⟨hput, hin⟩
  · exact mem_hooksCalled.2 ⟨hknown, infix_transform hword hin⟩
  · have hflagHooks : ∀ hook ∈ knownHooks, (hook ++ "(").toList ∈ Guard.flagWords → hook ∈ ["useState", "useEffect"] := by
      decide
    exact hflag.resolve_left hput hook (hflagHooks hook hknown hin)

theorem run_imports_hooks_called : LacksImport (decoded "useState(0); useEffect(f)".toList) ∧
    importsHooks (firstRecord "useState(0); useEffect(f)".toList).output = true := by
  have hlacks : LacksImport (decoded "useState(0); useEffect(f)".toList) :=
    ⟨by decide, by decide, by decide⟩
  exact ⟨hlacks, run_imports_hooks (s := standardService) rfl hlacks (Or.inr (by decide)) (0 : Int) (.empty 300)
    (.idle false)⟩

/-- A declaration of state. -/
def stateOf (initial : String) : Text := ("const [d, setD] = useState(" ++ initial ++ ");").toList

/-- **An import may be missing**: where a declaration of state reads the host, the flag calls a hook that is not
imported. -/
theorem run_misses_import : LacksImport (stateOf "window.name") ∧
    importsHooks (firstRecord (stateOf "window.name")).output = false := by
  have hok : Pass.Config.transform (stateOf "window.name") = .ok (stateOf "window.name") := by
    decide
  refine ⟨⟨by decide, by decide, by decide⟩, ?_⟩
  rw [output_firstRecord hok]
  decide +kernel

end LayeredFix
