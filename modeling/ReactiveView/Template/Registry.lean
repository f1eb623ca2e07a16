import ReactiveView.Storage.Volume
import ReactiveView.Template.Parser

/-!
# The template registry

Templates by name. A template comes from memory, or from the first of the search directories that
has a file for it; it is read when it is first asked for and kept, also when there is none or it
cannot be read, until its name is invalidated. The error of a template that could not be read is
kept beside it.
-/

namespace ReactiveView

/-- Templates by name. -/
structure Registry where
  /-- The directories that are searched, in order. -/
  directories : List String := []
  /-- The sources in memory. -/
  sources : OrderedMap String String := .empty
  /-- The templates that were asked for, as far as there are any. -/
  loaded : OrderedMap String (Option Node) := .empty
  /-- The errors of templates that could not be read. -/
  errors : OrderedMap String TemplateError := .empty
  /-- How templates are read. -/
  options : ParserOptions := {}

namespace Registry

/-- The file name of a template. -/
def fileName (name : String) : String := name ++ ".html"

/-- The file of a template in the first directory that has one. -/
def file? (r : Registry) (files : Volume) (name : String) : Option String :=
  (r.directories.map (joinPath · (fileName name))).find? files.isFile

/-- The source of a template as it is now. -/
def source? (r : Registry) (files : Volume) (name : String) : Option String :=
  match r.sources.get? name with
  | some source => some source
  | none => (r.file? files name).bind fun path => (files.readText path).toOption

/-- The name by which errors call the source of a template. -/
def sourceName (r : Registry) (files : Volume) (name : String) : String :=
  if r.sources.contains name then fileName name else (r.file? files name).getD (fileName name)

/-- Read a template from its present source. -/
def load (r : Registry) (files : Volume) (name : String) : Option (Except TemplateError Node) :=
  (r.source? files name).map fun source =>
    parseTemplate source { r.options with filename := r.sourceName files name }

/-- Keep the outcome of reading a template. -/
def keep (r : Registry) (name : String) (outcome : Option (Except TemplateError Node)) :
    Option Node × Registry :=
  match outcome with
  | none => (none, { r with loaded := r.loaded.insert name none })
  | some (.ok root) => (some root, { r with loaded := r.loaded.insert name (some root) })
  | some (.error e) =>
    (none, { r with loaded := r.loaded.insert name none, errors := r.errors.insert name e })

/-- A template, unless there is none or it cannot be read. -/
def get (r : Registry) (files : Volume) (name : String) : Option Node × Registry :=
  match r.loaded.get? name with
  | some kept => (kept, r)
  | none => r.keep name (r.load files name)

/-- Whether the outcome of reading a template is kept. -/
def isLoaded (r : Registry) (name : String) : Bool := r.loaded.contains name

/-- The error because of which a template is not available. -/
def error? (r : Registry) (name : String) : Option TemplateError := r.errors.get? name

/-- Forget what was read for a name. -/
def invalidate (r : Registry) (name : String) : Registry :=
  { r with loaded := r.loaded.erase name, errors := r.errors.erase name }

/-- Forget all that was read. -/
def clear (r : Registry) : Registry := { r with loaded := .empty, errors := .empty }

/-- Put a source into memory, in place of an earlier one. -/
def addSource (r : Registry) (name source : String) : Registry :=
  { r with sources := r.sources.insert name source }.invalidate name

/-- Search one more directory, after the others. -/
def addDirectory (r : Registry) (directory : String) : Registry :=
  { r with directories := r.directories ++ [directory] }

end Registry
end ReactiveView
