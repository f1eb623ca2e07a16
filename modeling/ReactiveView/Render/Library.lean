import ReactiveView.Program.Cache
import ReactiveView.Program.Compile
import ReactiveView.Render.Step
import ReactiveView.Template.Registry

/-!
# Libraries

Where components come from. A library finds a component by name: as a template of its registry, as a
program that it compiles from such a template, or in a fixed list of programs. Compiled programs are
kept in memory and, if the library has an artifact cache, also as files; a kept program counts only
if it was compiled from the present source.
-/

namespace ReactiveView

/-- How the components of a library are run. -/
inductive Execution where
  /-- As the templates stand. -/
  | interpreted
  /-- As programs, which are kept. -/
  | compiled (programs : OrderedMap String Program) (cache : Option ArtifactCache)
  /-- As the given programs. -/
  | fixed (programs : List Program)

/-- Where components come from. -/
structure Library where
  /-- The templates. -/
  registry : Registry := {}
  /-- How they are run. -/
  execution : Execution := .interpreted
  /-- The files of templates and artifacts. -/
  files : Volume := .empty

namespace Library

/-- The kept program of a name. A file that cannot be used is as good as none. -/
def loadArtifact (l : Library) (cache : Option ArtifactCache) (name hash : String) :
    Option Program :=
  cache.bind fun c => ((c.load l.files name hash).toOption).join

/-- The files after a program was kept, if that succeeds. -/
def storeArtifact (files : Volume) (cache : Option ArtifactCache) (p : Program) : Volume :=
  match cache with
  | none => files
  | some c => ((c.store files p).toOption).getD files

/-- Read and compile a template, and keep the program as a file. -/
def compileTemplate (l : Library) (cache : Option ArtifactCache) (name hash : String) :
    Option Program × Library :=
  let (root, registry) := l.registry.get l.files name
  let l := { l with registry := registry }
  match root with
  | none => (none, l)
  | some root =>
    let p := compile name root hash
    (some p, { l with files := storeArtifact l.files cache p })

/-- The program of a name, which is made if it is not kept in memory. -/
def program (l : Library) (programs : OrderedMap String Program) (cache : Option ArtifactCache)
    (name : String) : Option Program × Library :=
  match programs.get? name with
  | some p => (some p, l)
  | none =>
    match l.registry.source? l.files name with
    | none => (none, l)
    | some source =>
      let hash := contentHash source
      let (found, l) :=
        match l.loadArtifact cache name hash with
        | some p => (some p, l)
        | none => l.compileTemplate cache name hash
      match found with
      | none => (none, l)
      | some p => (some p, { l with execution := .compiled (programs.insert name p) cache })

/-- The component of a name. -/
def resolve (l : Library) (name : String) : Option Routine × Library :=
  match l.execution with
  | .interpreted =>
    let (root, registry) := l.registry.get l.files name
    (root.map (.template name), { l with registry := registry })
  | .compiled programs cache =>
    let (p, l) := l.program programs cache name
    (p.map .program, l)
  | .fixed programs => ((programs.find? (·.name = name)).map .program, l)

/-- Forget what was read and compiled for a name. -/
def invalidate (l : Library) (name : String) : Library :=
  { l with
    registry := l.registry.invalidate name
    execution :=
      match l.execution with
      | .compiled programs cache => .compiled (programs.erase name) cache
      | other => other }

/-- Put a source into memory, in place of an earlier one. -/
def addSource (l : Library) (name source : String) : Library :=
  { l with registry := l.registry.addSource name source }.invalidate name

/-- Compile templates and keep the programs. -/
def warm (l : Library) (names : List String) : Library :=
  names.foldl (fun l name => (l.resolve name).2) l

end Library
end ReactiveView
