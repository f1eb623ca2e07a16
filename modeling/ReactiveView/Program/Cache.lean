import ReactiveView.Program.Artifact
import ReactiveView.Storage.Volume

/-!
# Artifact caches

Compiled programs are kept as files, one for each name, in a directory for each application. A file
counts only if it has the current form and was kept by the same application under the same name for
a source of the same fingerprint; otherwise it is as if it were not there.
-/

namespace ReactiveView

/-- A directory of artifacts. -/
structure ArtifactCache where
  /-- The directory. -/
  directory : String
  /-- The application, which has a directory of its own in it. -/
  keptIn : String
deriving DecidableEq, Repr

/-- Why an artifact could not be used. -/
inductive CacheError where
  /-- Its file could not be read or written. -/
  | file
  /-- Its text is no artifact. -/
  | malformed
deriving DecidableEq, Repr

namespace ArtifactCache

/-- The directory of the application. -/
def ownDirectory (c : ArtifactCache) : String := joinPath c.directory c.keptIn

/-- The file of a program. -/
def path (c : ArtifactCache) (name : String) : String := joinPath c.ownDirectory (name ++ ".json")

/-- Whether an artifact is that of a program of this application, for a source of a fingerprint. -/
def accepts (c : ArtifactCache) (name hash : String) (a : Artifact) : Bool :=
  a.version = Artifact.currentVersion && a.keptIn = c.keptIn && a.program.name = name &&
    a.program.hash = hash

/-- The kept program of a name, for a source of a fingerprint. -/
def load (c : ArtifactCache) (files : Volume) (name hash : String) :
    Except CacheError (Option Program) :=
  match files.readText (c.path name) with
  | .error .notFound => .ok none
  | .error .refused => .error .file
  | .ok text =>
    match Decoder.run Artifact.decoder text with
    | none => .error .malformed
    | some a => .ok (if c.accepts name hash a then some a.program else none)

/-- The text of an artifact. -/
def text (c : ArtifactCache) (p : Program) : String :=
  (Artifact.toJson ⟨Artifact.currentVersion, c.keptIn, p⟩).render

/-- Turn the error of a file into that of an artifact. -/
def ofFile {α : Type} : Except FileError α → Except CacheError α
  | .ok a => .ok a
  | .error _ => .error .file

/-- Keep a program. -/
def store (c : ArtifactCache) (files : Volume) (p : Program) : Except CacheError Volume :=
  ofFile (files.write (c.path p.name) (some (c.text p)))

/-- An outcome in which nothing to remove is no error. -/
def removal (files : Volume) : Except FileError Volume → Except CacheError Volume
  | .ok files => .ok files
  | .error .notFound => .ok files
  | .error .refused => .error .file

/-- Remove the artifact of a name, if there is one. -/
def remove (c : ArtifactCache) (files : Volume) (name : String) : Except CacheError Volume :=
  removal files (files.removeFile (c.path name))

/-- Remove every artifact of the application. -/
def clear (c : ArtifactCache) (files : Volume) : Except CacheError Volume :=
  removal files (files.removeDirectory c.ownDirectory)

end ArtifactCache
end ReactiveView
