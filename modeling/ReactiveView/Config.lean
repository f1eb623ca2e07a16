import ReactiveView.Expr.Json
import ReactiveView.Render.Session

/-!
# Configuration

Where templates are searched, how they are run and where compiled programs are kept, as a file in
the directory of an application says. Every part may be left out. A file that is missing or that
cannot be read counts as one that says nothing.
-/

namespace ReactiveView

open Decoder (record)

/-- Where templates come from, and how they are run. -/
structure TemplatesConfig where
  /-- The directories that are searched. -/
  paths : List String := []
  /-- Whether templates are run as programs. -/
  compiled : Bool := false
deriving DecidableEq, Repr

/-- Where compiled programs are kept. -/
structure CacheConfig where
  /-- Whether they are kept as files. -/
  enabled : Bool := false
  /-- The directory of the files. -/
  directory : String := ".tessera/cache"
  /-- The application, which has a directory of its own in it. -/
  keptIn : String := "default"
deriving DecidableEq, Repr

/-- What is logged. -/
structure LogConfig where
  /-- The directives of the filter. -/
  filter : String := "warn"
deriving DecidableEq, Repr

/-- The configuration of an application. -/
structure Config where
  /-- The schema that the file refers to. -/
  schema : Option String := none
  /-- The templates. -/
  templates : TemplatesConfig := {}
  /-- The engine. -/
  engine : EngineOptions := {}
  /-- The kept programs. -/
  cache : CacheConfig := {}
  /-- The log. -/
  log : LogConfig := {}
  /-- The directory that relative paths start from. -/
  base : String := ""
deriving DecidableEq, Repr

/-- The part on templates as data. -/
def TemplatesConfig.toJson (c : TemplatesConfig) : Json :=
  .object [("paths", .texts c.paths), ("compiled", .bool c.compiled)]

/-- Read the part on templates. -/
def TemplatesConfig.decoder : Decoder TemplatesConfig := record ["paths", "compiled"] fun f => do
  let usual : TemplatesConfig := {}
  return ⟨← f.withDefault "paths" usual.paths (.list .text),
    ← f.withDefault "compiled" usual.compiled .bool⟩

/-- The part on kept programs as data. -/
def CacheConfig.toJson (c : CacheConfig) : Json :=
  .object [("enabled", .bool c.enabled), ("dir", .str c.directory), ("namespace", .str c.keptIn)]

/-- Read the part on kept programs. -/
def CacheConfig.decoder : Decoder CacheConfig := record ["enabled", "dir", "namespace"] fun f => do
  let usual : CacheConfig := {}
  return ⟨← f.withDefault "enabled" usual.enabled .bool,
    ← f.withDefault "dir" usual.directory .text,
    ← f.withDefault "namespace" usual.keptIn .text⟩

/-- The part on the log as data. -/
def LogConfig.toJson (c : LogConfig) : Json := .object [("filter", .str c.filter)]

/-- Read the part on the log. -/
def LogConfig.decoder : Decoder LogConfig := record ["filter"] fun f => do
  let usual : LogConfig := {}
  return ⟨← f.withDefault "filter" usual.filter .text⟩

namespace Config

/-- The name of the file. -/
def fileName : String := "tessera.config.json"

/-- A configuration as data. -/
def toJson (c : Config) : Json :=
  .object <| (c.schema.map fun s => ("$schema", Json.str s)).toList ++
    [("templates", c.templates.toJson), ("engine", c.engine.toJson), ("cache", c.cache.toJson),
      ("log", c.log.toJson)]

/-- Read a configuration. -/
def decoder : Decoder Config :=
  record ["$schema", "templates", "engine", "cache", "log"] fun f => do
    return {
      schema := ← f.withDefault "$schema" none (.nullable .text)
      templates := ← f.withDefault "templates" {} TemplatesConfig.decoder
      engine := ← f.withDefault "engine" {} EngineOptions.decoder
      cache := ← f.withDefault "cache" {} CacheConfig.decoder
      log := ← f.withDefault "log" {} LogConfig.decoder }

/-- The configuration of a directory. -/
def load (files : Volume) (directory : String) : Config :=
  let found := do
    let text ← (files.readText (joinPath directory fileName)).toOption
    Decoder.run decoder text
  { found.getD {} with base := directory }

/-- The directories that are searched for templates. -/
def templatePaths (c : Config) : List String := c.templates.paths.map (joinPath c.base)

/-- The directory in which programs are kept. -/
def cacheDirectory (c : Config) : String := joinPath c.base c.cache.directory

/-- The library that a configuration asks for. -/
def library (c : Config) (files : Volume) : Library where
  registry := { directories := c.templatePaths }
  execution :=
    if c.templates.compiled then
      .compiled .empty (if c.cache.enabled then some ⟨c.cacheDirectory, c.cache.keptIn⟩ else none)
    else .interpreted
  files := files

/-- A new engine as a configuration asks for it. -/
def start (c : Config) (files : Volume) : Engine :=
  { library := c.library files, options := c.engine }

end Config
end ReactiveView
