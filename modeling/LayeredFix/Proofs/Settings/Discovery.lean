import LayeredFix.Settings.Discovery
import Mathlib.Data.List.Infix

/-!
# The nearest file, and no falling through

A path leads to a regular file when each of its steps starts from a directory and the last one ends at a file
(`isFile_iff`). Which file configures is decided at one of three levels (`resolve_iff`): by the path that is asked for,
by the variable, or by the directories. The first level that has a say decides alone, also that there is no file.

The walk through the directories goes from the end of a place to its beginning, so it is followed by induction from the
end (`nearest_iff`): a file in the last directory is the nearest, and without one the directories above decide.
-/

namespace LayeredFix

/-! ### Regular files -/

/-- A path used in a directory leads to a regular file. -/
structure FileTree.LeadsToFile (t : FileTree) (directory : Location) (p : Path) : Prop where
  /-- Wherever the path goes on, there is a directory. -/
  through : ∀ u v, p.steps = u ++ v → v ≠ [] → t.entry? (u.foldl Path.goto (p.origin directory)) = some .directory
  /-- Where it ends, there is a file. -/
  file : ∃ bytes, t.entry? (p.target directory) = some (.file bytes)

/-- What steps lead to is what stands at their end, if there are directories on the way. -/
theorem FileTree.follow_eq_ok_iff {t : FileTree} {e : FileEntry} {steps : List Text} {l : Location} :
    t.follow l steps = .ok e ↔
      (∀ u v, steps = u ++ v → v ≠ [] → t.entry? (u.foldl Path.goto l) = some .directory) ∧
        t.entry? (steps.foldl Path.goto l) = some e := by
  induction steps generalizing l with
  | nil =>
    rw [follow, List.foldl_nil]
    cases t.entry? l with
    | none => simp
    | some e' => simp
  | cons step steps ih =>
    rw [follow, List.foldl_cons]
    constructor
    · intro h
      cases hentry : t.entry? l with
      | none => simp [hentry] at h
      | some e' =>
        cases e' with
        | file bytes => simp [hentry] at h
        | directory =>
          simp only [hentry] at h
          obtain ⟨hthrough, hend⟩ := ih.1 h
          refine ⟨fun u v huv hv => ?_, hend⟩
          cases u with
          | nil => exact hentry
          | cons step' u =>
            obtain ⟨rfl, huv'⟩ := List.cons.inj huv
            exact hthrough u v huv' hv
    · rintro ⟨hthrough, hend⟩
      have hhere : t.entry? l = some .directory := hthrough [] (step :: steps) rfl (List.cons_ne_nil _ _)
      simp only [hhere]
      exact ih.2 ⟨fun u v huv hv => hthrough (step :: u) v (by rw [huv, List.cons_append]) hv, hend⟩

/-- **A path is taken for a file just if it leads to a regular one.** -/
theorem FileTree.isFile_iff {t : FileTree} {directory : Location} {p : Path} :
    t.isFile directory p = true ↔ t.LeadsToFile directory p := by
  have hfound : t.isFile directory p = true ↔ ∃ bytes, t.find directory p = .ok (.file bytes) := by
    unfold isFile
    split
    · rename_i bytes h
      simp [h]
    · rename_i h
      exact iff_of_false (by simp) fun ⟨bytes, hb⟩ => h bytes hb
  rw [hfound]
  constructor
  · rintro ⟨bytes, h⟩
    obtain ⟨hthrough, hend⟩ := follow_eq_ok_iff.1 h
    exact ⟨hthrough, bytes, hend⟩
  · rintro ⟨hthrough, bytes, hend⟩
    exact ⟨bytes, follow_eq_ok_iff.2 ⟨hthrough, hend⟩⟩

namespace Surroundings

variable {s : Surroundings} {l : Location} {r : Option Path}

/-- A path leads to a regular file from where the process stands. -/
def IsFile (s : Surroundings) (p : Path) : Prop := s.tree.LeadsToFile s.directory p

theorem hasFile_iff {p : Path} : s.hasFile p = true ↔ s.IsFile p := FileTree.isFile_iff

/-! ### A path that decides alone -/

/-- What a text says alone: the path it writes if there is a file, and else that there is none. -/
inductive Decides (s : Surroundings) (t : Text) : Option Path → Prop where
  /-- There is a file. -/
  | file (h : s.IsFile (.ofText t)) : Decides s t (some (.ofText t))
  /-- There is none. -/
  | nothing (h : ¬ s.IsFile (.ofText t)) : Decides s t none

theorem decides_iff {t : Text} : s.Decides t r ↔ s.file? (.ofText t) = r := by
  unfold file?
  split
  · rename_i h
    constructor
    · rintro (_ | hno)
      · rfl
      · exact absurd (hasFile_iff.1 h) hno
    · rintro rfl
      exact .file (hasFile_iff.1 h)
  · rename_i h
    constructor
    · rintro (hfile | _)
      · exact absurd (hasFile_iff.2 hfile) h
      · rfl
    · rintro rfl
      exact .nothing fun hfile => h (hasFile_iff.2 hfile)

/-- Nothing is said: there is no text, or it is empty. -/
def Silent (o : Option Text) : Prop := ∀ t, o = some t → t = []

/-- A text that is not empty asks for its path; all else says nothing. -/
theorem asked?_cases (o : Option Text) :
    (∃ t, o = some t ∧ t ≠ [] ∧ asked? o = some (.ofText t)) ∨ Silent o ∧ asked? o = none := by
  cases o with
  | none => exact Or.inr ⟨fun _ h => (Option.some_ne_none _ h.symm).elim, rfl⟩
  | some t =>
    cases t with
    | nil => exact Or.inr ⟨fun _ h => (Option.some.inj h).symm, rfl⟩
    | cons c t => exact Or.inl ⟨c :: t, rfl, List.cons_ne_nil c t, rfl⟩

/-- What a text that is not empty decides, it decides alone. -/
theorem decided_iff {o : Option Text} {t : Text} (ho : o = some t) (hne : t ≠ []) {P : Text → Prop} {Q : Prop} :
    (∃ t, o = some t ∧ t ≠ [] ∧ P t) ∨ Silent o ∧ Q ↔ P t := by
  constructor
  · rintro (⟨t', ho', -, h⟩ | ⟨hsilent, -⟩)
    · rwa [← Option.some.inj (ho'.symm.trans ho)]
    · exact absurd (hsilent t ho) hne
  · exact fun h => Or.inl ⟨t, ho, hne, h⟩

/-- Where nothing is said, the next level decides. -/
theorem undecided_iff {o : Option Text} (ho : Silent o) {P : Text → Prop} {Q : Prop} :
    (∃ t, o = some t ∧ t ≠ [] ∧ P t) ∨ Silent o ∧ Q ↔ Q := by
  constructor
  · rintro (⟨t, ht, hne, -⟩ | ⟨-, h⟩)
    · exact absurd (ho t ht) hne
    · exact h
  · exact fun h => Or.inr ⟨ho, h⟩

/-! ### The nearest file -/

/-- The path of the usual name in a directory. -/
def configIn (d : Location) : Path := .ofLocation (d ++ [configName])

/-- What the directories say from a place upwards: the file of the usual name that is nearest, and else that there is
none. The directory of a nearer file is deeper, so all others that have one lie on the way to it. -/
inductive Nearest (s : Surroundings) (l : Location) : Option Path → Prop where
  /-- There is a file in the directory `d`, and none below. -/
  | file {d : Location} (above : d <+: l) (file : s.IsFile (configIn d))
    (nearest : ∀ d', d' <+: l → s.IsFile (configIn d') → d' <+: d) : Nearest s l (some (configIn d))
  /-- There is none. -/
  | nothing (h : ∀ d, d <+: l → ¬ s.IsFile (configIn d)) : Nearest s l none

@[simp] theorem candidates_nil : candidates [] = [configIn []] := rfl

/-- The directory itself comes before those above it. -/
theorem candidates_concat (l : Location) (name : Text) :
    candidates (l ++ [name]) = configIn (l ++ [name]) :: candidates l := by
  have htake : ∀ n ∈ (List.range (l.length + 1)).reverse, (l ++ [name]).take n = l.take n := by
    intro n hn
    rw [List.mem_reverse, List.mem_range] at hn
    exact List.take_append_of_le_length (Nat.le_of_lt_succ hn)
  unfold candidates
  rw [List.length_append, List.length_singleton, List.range_succ, List.reverse_append, List.reverse_singleton,
    List.singleton_append, List.map_cons, List.take_of_length_le (by simp)]
  congr 1
  exact List.map_congr_left fun n hn => by rw [htake n hn]

/-- **The walk finds the nearest file.** -/
theorem nearest_iff : s.Nearest l r ↔ s.nearest? l = r := by
  -- Each place has one nearest file at most, so it is enough that the walk finds one.
  have hunique : ∀ {r r' : Option Path}, s.Nearest l r → s.Nearest l r' → r = r' := by
    rintro _ _ (⟨hd, hfile, hnear⟩ | hno) (⟨hd', hfile', hnear'⟩ | hno')
    · have heq := (hnear' _ hd hfile).eq_of_length_le (hnear _ hd' hfile').length_le
      rw [heq]
    · exact absurd hfile (hno' _ hd)
    · exact absurd hfile' (hno _ hd')
    · rfl
  suffices hfound : s.Nearest l (s.nearest? l) from ⟨fun h => hunique hfound h, fun h => h ▸ hfound⟩
  clear hunique
  unfold nearest?
  induction l using List.reverseRecOn with
  | nil =>
    rw [candidates_nil, List.find?_singleton]
    split
    · rename_i h
      exact .file List.nil_prefix (hasFile_iff.1 h) fun d hd _ => hd
    · rename_i h
      exact .nothing fun d hd hfile => h (hasFile_iff.2 (List.prefix_nil.1 hd ▸ hfile))
  | append_singleton l name ih =>
    rw [candidates_concat, List.find?_cons]
    split
    · rename_i h
      exact .file (List.prefix_refl _) (hasFile_iff.1 h) fun d hd _ => hd
    · rename_i h
      have hhere : ¬ s.IsFile (configIn (l ++ [name])) := fun hfile => by
        rw [hasFile_iff.2 hfile] at h
        cases h
      have habove : ∀ d, d <+: l ++ [name] → s.IsFile (configIn d) → d <+: l := by
        intro d hd hfile
        rcases List.prefix_concat_iff.1 hd with rfl | hd
        · exact absurd hfile hhere
        · exact hd
      generalize (candidates l).find? s.hasFile = r at ih
      cases ih with
      | file hd hfile hnear =>
        exact .file (hd.trans (List.prefix_append _ _)) hfile fun d' hd' hfile' => hnear d' (habove d' hd' hfile') hfile'
      | nothing hno => exact .nothing fun d hd hfile => hno d (habove d hd hfile) hfile

/-! ### Three levels -/

/-- **Which file configures is decided at one level.** A path that is asked for says alone whether there is a file,
whatever the environment and the directories hold; if none is asked for, the variable says so alone; and if that says
nothing either, the nearest file of the usual name counts, from the directory of the start upwards. A directory of the usual
name is no file, and an empty text asks for nothing. -/
theorem resolve_iff (s : Surroundings) (path start : Option Text) (r : Option Path) :
    s.resolve path start = r ↔
      (∃ t, path = some t ∧ t ≠ [] ∧ s.Decides t r) ∨
      Silent path ∧
        ((∃ t, Entries.get? configVariable s.environment = some t ∧ t ≠ [] ∧ s.Decides t r) ∨
          Silent (Entries.get? configVariable s.environment) ∧ s.Nearest (s.startOf start) r) := by
  unfold resolve
  rcases asked?_cases path with ⟨t, hpath, hne, hasked⟩ | ⟨hpath, hasked⟩
  · rw [hasked, decided_iff hpath hne]
    exact decides_iff.symm
  · rw [hasked, undecided_iff hpath]
    unfold discover
    rcases asked?_cases (Entries.get? configVariable s.environment) with ⟨t, hvariable, hne, hasked⟩ | ⟨hvariable, hasked⟩
    · rw [hasked, decided_iff hvariable hne]
      exact decides_iff.symm
    · rw [hasked, undecided_iff hvariable]
      exact nearest_iff.symm

end Surroundings

end LayeredFix
