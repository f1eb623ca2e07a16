import ReactiveView.Proofs.Compilation.Bodies
import ReactiveView.Render.Library

/-!
# Libraries that find the same components

A library that runs templates as they stand and one that compiles them find the same components, as
long as they have the same sources, whatever each of them has read or compiled before
(`Library.Serves`). Routines and libraries are compared by norms, like bodies: routines with one
norm have the same name and bodies with one norm (`Routine.of_norm_eq`), and libraries with one norm
find routines with one norm, and have one norm afterwards (`Library.resolve_norm`).
-/

namespace ReactiveView

/-! ## Routines -/

/-- A template and the program that it is compiled to. -/
inductive Routine.Compiled : Routine → Routine → Prop
  /-- The program has the name under which the template was found. -/
  | mk (name : String) (root : Node) (hash : String) :
      Compiled (.template name root) (.program (compile name root hash))

/-- One routine for all those that are connected by compilation. -/
noncomputable def Routine.norm (r : Routine) : Routine := (Quot.mk Routine.Compiled r).out

/-- A template and the program that it is compiled to have one norm. -/
theorem Routine.Compiled.norm_eq {r r' : Routine} (h : r.Compiled r') : r.norm = r'.norm :=
  congrArg Quot.out (Quot.sound h)

/-- A template and the program that it is compiled to have the same name and body. -/
theorem Routine.Compiled.name_body {r r' : Routine} (h : r.Compiled r') :
    (r.name, r.body.norm) = (r'.name, r'.body.norm) := by
  obtain ⟨name, root, hash⟩ := h
  have hentry : (compile name root hash).Has 0
      (Compile.asProcedure .entry (Compile.nodeOps (0 + 1) root.children)) := by
    intro i proc hi
    rw [Nat.zero_add]
    exact hi
  exact Prod.ext rfl (Compiled.procedure hentry).norm_eq

/-- Routines with one norm have the same name and body. -/
theorem Routine.of_norm_eq {r r' : Routine} (h : r.norm = r'.norm) :
    r.name = r'.name ∧ r.body.norm = r'.body.norm := by
  have hquot : Quot.mk Routine.Compiled r = Quot.mk Routine.Compiled r' := by
    rw [← Quot.out_eq (Quot.mk Routine.Compiled r), ← Quot.out_eq (Quot.mk Routine.Compiled r')]
    exact congrArg _ h
  exact Prod.ext_iff.1 (congrArg (Quot.lift (fun r => (r.name, r.body.norm))
    fun _ _ h => h.name_body) hquot)

/-! ## Registries -/

namespace Registry

/-- The template that a registry finds if it has read nothing yet. -/
def template? (base : Registry) (files : Volume) (name : String) : Option Node :=
  (base.clear.get files name).1

/-- A registry that has the sources of another one, and has read no others. -/
structure Reads (base : Registry) (files : Volume) (r : Registry) : Prop where
  /-- The templates in memory. -/
  sources : r.sources = base.sources
  /-- The directories. -/
  directories : r.directories = base.directories
  /-- How templates are read. -/
  options : r.options = base.options
  /-- What was read. -/
  loaded : ∀ name kept, r.loaded.get? name = some kept → kept = base.template? files name

variable {base r : Registry} {files : Volume}

/-- The source of a template. -/
theorem Reads.source? (h : base.Reads files r) (name : String) :
    r.source? files name = base.source? files name := by
  simp only [Registry.source?, Registry.file?, h.sources, h.directories]

/-- What reading a template comes to. -/
theorem Reads.load (h : base.Reads files r) (name : String) :
    r.load files name = base.load files name := by
  simp only [Registry.load, h.source?, Registry.sourceName, Registry.file?, h.sources,
    h.directories, h.options]

/-- Keeping an outcome gives what was read. -/
theorem fst_keep (r : Registry) (name : String) (outcome : Option (Except TemplateError Node)) :
    (r.keep name outcome).1 = outcome.bind (·.toOption) := by
  unfold keep
  split <;> rfl

/-- Keeping an outcome keeps what was read, and reads nothing else. -/
theorem snd_keep (r : Registry) (name : String) (outcome : Option (Except TemplateError Node)) :
    (r.keep name outcome).2.sources = r.sources ∧
      (r.keep name outcome).2.directories = r.directories ∧
      (r.keep name outcome).2.options = r.options ∧
      (r.keep name outcome).2.loaded = r.loaded.insert name (r.keep name outcome).1 := by
  unfold keep
  split <;> exact ⟨rfl, rfl, rfl, rfl⟩

/-- The template of a name is what reading its source comes to. -/
theorem template?_eq (base : Registry) (files : Volume) (name : String) :
    base.template? files name = (base.load files name).bind (·.toOption) := by
  have hclear : base.clear.get files name = base.clear.keep name (base.clear.load files name) := rfl
  rw [template?, hclear, fst_keep]
  rfl

/-- A registry finds the templates of its sources, and goes on doing so. -/
theorem Reads.get (h : base.Reads files r) (name : String) :
    (r.get files name).1 = base.template? files name ∧ base.Reads files (r.get files name).2 := by
  unfold Registry.get
  cases hkept : r.loaded.get? name with
  | some kept => exact ⟨h.loaded name kept hkept, h⟩
  | none =>
    have hfound : (r.keep name (r.load files name)).1 = base.template? files name := by
      rw [fst_keep, h.load, template?_eq]
    obtain ⟨hsources, hdirectories, hoptions, hloaded⟩ := snd_keep r name (r.load files name)
    refine ⟨hfound, hsources.trans h.sources, hdirectories.trans h.directories,
      hoptions.trans h.options, fun name' kept hname' => ?_⟩
    rw [hloaded] at hname'
    by_cases heq : name' = name
    · subst heq
      rw [OrderedMap.get?_insert_self] at hname'
      exact (Option.some.inj hname').symm.trans hfound
    · rw [OrderedMap.get?_insert_of_ne _ heq] at hname'
      exact h.loaded name' kept hname'

/-- A registry that has read nothing. -/
theorem reads_clear (base : Registry) (files : Volume) : base.Reads files base.clear where
  sources := rfl
  directories := rfl
  options := rfl
  loaded _ _ h := by cases h

end Registry

/-- The norm of the component that the sources of a registry have for a name. -/
noncomputable def Registry.component? (base : Registry) (files : Volume) (name : String) :
    Option Routine :=
  (base.template? files name).map fun root => Routine.norm (.template name root)

/-! ## Libraries -/

namespace Library

/-- A library that has the sources of a registry, runs them as they stand or compiled, and has
compiled no others. -/
inductive Serves (base : Registry) (files : Volume) : Library → Prop
  /-- Templates are run as they stand. -/
  | interpreted {r : Registry} (reads : base.Reads files r) :
      Serves base files ⟨r, .interpreted, files⟩
  /-- Templates are compiled, and the programs are kept in memory. -/
  | compiled {r : Registry} {programs : OrderedMap String Program} (reads : base.Reads files r)
      (kept : ∀ name p, programs.get? name = some p → ∃ root hash,
        base.template? files name = some root ∧ p = compile name root hash) :
      Serves base files ⟨r, .compiled programs none, files⟩

variable {base : Registry} {files : Volume} {l l' : Library}

/-- The norm of a compiled template. -/
theorem norm_compile (name : String) (root : Node) (hash : String) :
    Routine.norm (.program (compile name root hash)) = Routine.norm (.template name root) :=
  (Routine.Compiled.mk name root hash).norm_eq.symm

/-- Such a library finds the components of its sources, and goes on doing so. -/
theorem Serves.resolve (h : Serves base files l) (name : String) :
    (l.resolve name).1.map Routine.norm = base.component? files name ∧
      Serves base files (l.resolve name).2 := by
  cases h with
  | @interpreted r reads =>
    obtain ⟨hfound, hreads⟩ := reads.get name
    constructor
    · simp only [Library.resolve, Registry.component?, hfound, Option.map_map, Function.comp_def]
    · exact .interpreted hreads
  | @compiled r programs reads kept =>
    simp only [Library.resolve, program]
    cases hp : programs.get? name with
    | some p =>
      obtain ⟨root, hash, hroot, rfl⟩ := kept name p hp
      simp only [Registry.component?, hroot, Option.map_some, norm_compile]
      exact ⟨trivial, .compiled reads kept⟩
    | none =>
      simp only [reads.source?]
      cases hs : base.source? files name with
      | none =>
        have hload : base.load files name = none := by
          rw [Registry.load, hs, Option.map_none]
        simp only [Registry.component?, Registry.template?_eq, hload, Option.bind_none,
          Option.map_none]
        exact ⟨trivial, .compiled reads kept⟩
      | some source =>
        obtain ⟨hfound, hreads⟩ := reads.get name
        simp only [loadArtifact, Option.bind_none, compileTemplate]
        cases hroot : base.template? files name with
        | none =>
          simp only [hfound, hroot, Registry.component?, Option.map_none]
          exact ⟨trivial, .compiled hreads kept⟩
        | some root =>
          simp only [hfound, hroot, Registry.component?, Option.map_some, norm_compile,
            storeArtifact]
          refine ⟨trivial, .compiled hreads fun name' p hp' => ?_⟩
          by_cases heq : name' = name
          · subst heq
            rw [OrderedMap.get?_insert_self] at hp'
            exact ⟨root, contentHash source, hroot, (Option.some.inj hp').symm⟩
          · rw [OrderedMap.get?_insert_of_ne _ heq] at hp'
            exact kept name' p hp'

/-- Libraries that have the same sources, and run them as they stand or compiled. -/
def Alike (l l' : Library) : Prop := ∃ base files, Serves base files l ∧ Serves base files l'

/-- One library for all those that are connected by having the same sources. -/
noncomputable def norm (l : Library) : Library := (Quot.mk Alike l).out

/-- Libraries with the same sources have one norm. -/
theorem Alike.norm_eq (h : Alike l l') : l.norm = l'.norm := congrArg Quot.out (Quot.sound h)

/-- Libraries with one norm find routines with one norm, and have one norm afterwards. -/
theorem resolve_norm (h : l.norm = l'.norm) (name : String) :
    (l.resolve name).1.map Routine.norm = (l'.resolve name).1.map Routine.norm ∧
      (l.resolve name).2.norm = (l'.resolve name).2.norm := by
  have hquot : Quot.mk Alike l = Quot.mk Alike l' := by
    rw [← Quot.out_eq (Quot.mk Alike l), ← Quot.out_eq (Quot.mk Alike l')]
    exact congrArg _ h
  refine Prod.ext_iff.1 (congrArg (Quot.lift (fun l =>
    ((l.resolve name).1.map Routine.norm, (l.resolve name).2.norm)) ?_) hquot)
  rintro l l' ⟨base, files, hl, hl'⟩
  obtain ⟨hfound, hserves⟩ := hl.resolve name
  obtain ⟨hfound', hserves'⟩ := hl'.resolve name
  exact Prod.ext (hfound.trans hfound'.symm) (Alike.norm_eq ⟨base, files, hserves, hserves'⟩)

end Library
end ReactiveView
