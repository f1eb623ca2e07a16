import ReactiveView.Proofs.Compilation.Libraries
import ReactiveView.Proofs.Parsing.Files

/-!
# What a registry answers

A registry is asked for templates while sources are put into memory, directories are added, files
are changed, and what was read is forgotten, in any order. What it answers is said of the history of
these events alone. At each point a name has a visible source, in memory or else in the first
directory with a file for it (`Registry.Origin.visible?`). A name is asked for first after the last
event that forgot it (`Registry.asked?`), and what was visible for it then decides the template
and the error that the registry has for the name from there on (`Registry.answers_after`).

Histories list the newest event first, so that the recursion of what is said of a history follows
the one of the run. Between the registry and its history there is one invariant
(`Registry.Origin.Follows`), which every event keeps.
-/

namespace ReactiveView
namespace Registry

/-! ## Histories -/

/-- What happens to a registry, or to the files that it reads. -/
inductive Event where
  /-- A source is put into memory. -/
  | addSource (name source : String)
  /-- One more directory is searched. -/
  | addDirectory (directory : String)
  /-- Files are made, edited or removed, until they are these. -/
  | changeFiles (files : Volume)
  /-- A template is asked for. -/
  | get (name : String)
  /-- What was read for a name is forgotten. -/
  | invalidate (name : String)
  /-- All that was read is forgotten. -/
  | clear

/-- Whether an event makes a registry forget what it read for a name. -/
def Event.forgets (name : String) : Event → Bool
  | .addSource changed _ => name = changed
  | .invalidate changed => name = changed
  | .clear => true
  | .addDirectory _ | .changeFiles _ | .get _ => false

/-- What happened so far, the newest event first. -/
abbrev History := List Event

/-- What had happened when a name was asked for for the first time since it was last forgotten, if it
was asked for since then. -/
def asked? (name : String) : History → Option History
  | [] => none
  | .get wanted :: h => (asked? name h).or (if name = wanted then some h else none)
  | e :: h => if e.forgets name then none else asked? name h

/-- The source that was put into memory last for a name. -/
def memory? (name : String) : History → Option String
  | [] => none
  | .addSource changed source :: h => if name = changed then some source else memory? name h
  | _ :: h => memory? name h

/-- Why a source cannot be read, if that is what reading it comes to. -/
def failureOf : Option (Except TemplateError Node) → Option TemplateError
  | some (.error e) => some e
  | some (.ok _) | none => none

/-- What is there before anything happens. -/
structure Origin where
  /-- The directories that the registry is made with. -/
  directories : List String
  /-- How it reads templates. -/
  options : ParserOptions
  /-- The files. -/
  files : Volume

namespace Origin

variable (o : Origin)

/-- The directories that are searched, in order. -/
def searched : History → List String
  | [] => o.directories
  | .addDirectory directory :: h => searched h ++ [directory]
  | _ :: h => searched h

/-- The files as they are. -/
def filesAfter : History → Volume
  | [] => o.files
  | .changeFiles files :: _ => files
  | _ :: h => filesAfter h

/-- The file in the first directory that has one for a name. -/
def found? (h : History) (name : String) : Option String :=
  ((o.searched h).map (joinPath · (fileName name))).find? (o.filesAfter h).isFile

/-- The source that is visible for a name, behind the name of its file: the one in memory, which has
the file name of the template, or else the text of the file that is found. -/
def visible? (h : History) (name : String) : Option (String × String) :=
  match memory? name h with
  | some source => some (fileName name, source)
  | none => do
    let path ← o.found? h name
    let text ← ((o.filesAfter h).readText path).toOption
    return (path, text)

/-- What reading the visible source comes to. -/
def reading? (h : History) (name : String) : Option (Except TemplateError Node) :=
  (o.visible? h name).map fun (file, source) =>
    parseTemplate source { o.options with filename := file }

/-- The template that the visible source has, unless there is none or it cannot be read. -/
def template? (h : History) (name : String) : Option Node :=
  (o.reading? h name).bind (·.toOption)

/-- Why the visible source cannot be read. -/
def failure? (h : History) (name : String) : Option TemplateError :=
  failureOf (o.reading? h name)

end Origin

/-! ## Runs -/

/-- A registry and the files beside it. -/
structure World where
  /-- The registry. -/
  registry : Registry
  /-- The files. -/
  files : Volume

/-- The template that the registry of a world answers with. -/
def World.get (w : World) (name : String) : Option Node := (w.registry.get w.files name).1

/-- What an event makes of a world. -/
def Event.run (w : World) : Event → World
  | .addSource name source => { w with registry := w.registry.addSource name source }
  | .addDirectory directory => { w with registry := w.registry.addDirectory directory }
  | .changeFiles files => { w with files := files }
  | .get name => { w with registry := (w.registry.get w.files name).2 }
  | .invalidate name => { w with registry := w.registry.invalidate name }
  | .clear => { w with registry := w.registry.clear }

/-- The world after what happened. -/
def Origin.after (o : Origin) : History → World
  | [] => ⟨{ directories := o.directories, options := o.options }, o.files⟩
  | e :: h => e.run (o.after h)

/-! ## The invariant -/

/-- A world is as its history says. -/
structure Origin.Follows (o : Origin) (h : History) (w : World) : Prop where
  /-- The files are. -/
  files : w.files = o.filesAfter h
  /-- The directories are. -/
  directories : w.registry.directories = o.searched h
  /-- The sources in memory are. -/
  sources : ∀ name, w.registry.sources.get? name = memory? name h
  /-- Templates are read as at the start. -/
  options : w.registry.options = o.options
  /-- A name is kept if it was asked for, with the template that it had then. -/
  loaded : ∀ name, w.registry.loaded.get? name = (asked? name h).map (o.template? · name)
  /-- Its error is the one that it had then. -/
  errors : ∀ name, w.registry.errors.get? name = (asked? name h).bind (o.failure? · name)

variable {o : Origin} {h : History} {w : World}

/-- The registry reads the visible source. -/
theorem Origin.Follows.load (hw : o.Follows h w) (name : String) :
    w.registry.load w.files name = o.reading? h name := by
  have hfile : w.registry.file? w.files name = o.found? h name := by
    rw [Registry.file?, Origin.found?, hw.files, hw.directories]
  rw [Registry.load, Registry.source?, Registry.sourceName, OrderedMap.contains, hw.sources,
    hw.options, hfile, hw.files, Origin.reading?, Origin.visible?]
  cases memory? name h with
  | some source => rfl
  | none =>
    cases o.found? h name with
    | none => rfl
    | some path =>
      simp only [Option.bind_eq_bind, Option.bind_some]
      cases ((o.filesAfter h).readText path).toOption <;> rfl

/-- Nothing happened. -/
theorem Origin.follows_nil (o : Origin) : o.Follows [] (o.after []) where
  files := rfl
  directories := rfl
  sources _ := rfl
  options := rfl
  loaded _ := rfl
  errors _ := rfl

/-- The error of a name that has none is the one of the outcome that is kept for it. -/
theorem get?_errors_keep {r : Registry} {name : String} (hname : r.errors.get? name = none)
    (outcome : Option (Except TemplateError Node)) (other : String) :
    (r.keep name outcome).2.errors.get? other =
      if other = name then failureOf outcome else r.errors.get? other := by
  unfold keep failureOf
  split
  · split
    · next heq => rw [heq, hname]
    · rfl
  · split
    · next heq => rw [heq, hname]
    · rfl
  · rw [OrderedMap.get?_insert]

/-- What is left when a name is forgotten. -/
theorem Origin.Follows.erase (hw : o.Follows h w) {e : Event} (changed : String)
    (hasked : ∀ name, asked? name (e :: h) = if name = changed then none else asked? name h)
    (name : String) :
    (w.registry.loaded.erase changed).get? name =
        (asked? name (e :: h)).map (o.template? · name) ∧
      (w.registry.errors.erase changed).get? name =
        (asked? name (e :: h)).bind (o.failure? · name) := by
  rw [OrderedMap.get?_erase, OrderedMap.get?_erase, hw.loaded, hw.errors, hasked]
  split <;> exact ⟨rfl, rfl⟩

/-- A name that is kept is not asked for for the first time. -/
theorem asked?_get_of_some {wanted : String} {earlier : History}
    (hwanted : asked? wanted h = some earlier) (name : String) :
    asked? name (.get wanted :: h) = asked? name h := by
  rw [asked?]
  split
  · next heq => rw [heq, hwanted, Option.some_or]
  · rw [Option.or_none]

/-- A name that is not kept is asked for for the first time. -/
theorem asked?_get_of_none {wanted : String} (hwanted : asked? wanted h = none) (name : String) :
    asked? name (.get wanted :: h) = if name = wanted then some h else asked? name h := by
  rw [asked?]
  split
  · next heq => rw [heq, hwanted, Option.none_or]
  · rw [Option.or_none]

/-- A template is asked for. -/
theorem Origin.Follows.run_get (hw : o.Follows h w) (wanted : String) :
    o.Follows (.get wanted :: h) ((Event.get wanted).run w) := by
  have hkept := hw.loaded wanted
  cases hasked : asked? wanted h with
  | some earlier =>
    -- the answer is kept, and nothing changes
    rw [hasked] at hkept
    have hget : w.registry.get w.files wanted = (o.template? earlier wanted, w.registry) := by
      rw [Registry.get, hkept]
      rfl
    have hrun : (Event.get wanted).run w = w := by
      rw [Event.run, hget]
    rw [hrun]
    refine { hw with loaded := fun name => ?_, errors := fun name => ?_ }
    · rw [asked?_get_of_some hasked, hw.loaded]
    · rw [asked?_get_of_some hasked, hw.errors]
  | none =>
    -- the visible source is read, and what comes of it is kept
    rw [hasked] at hkept
    have hget : w.registry.get w.files wanted = w.registry.keep wanted (o.reading? h wanted) := by
      rw [Registry.get, hkept, hw.load]
      rfl
    obtain ⟨hsources, hdirectories, hoptions, hloaded⟩ :=
      snd_keep w.registry wanted (o.reading? h wanted)
    have hnone : w.registry.errors.get? wanted = none := by
      rw [hw.errors, hasked]
      rfl
    rw [Event.run, hget]
    refine ⟨hw.files, hdirectories.trans hw.directories, fun name => ?_, hoptions.trans hw.options,
      fun name => ?_, fun name => ?_⟩
    · rw [hsources]
      exact hw.sources name
    · rw [hloaded, fst_keep, OrderedMap.get?_insert, asked?_get_of_none hasked, hw.loaded]
      split
      · next heq => rw [heq]; rfl
      · rfl
    · rw [get?_errors_keep hnone, asked?_get_of_none hasked, hw.errors]
      split
      · next heq => rw [heq]; rfl
      · rfl

/-- Every event keeps the invariant. -/
theorem Origin.Follows.run (hw : o.Follows h w) (e : Event) : o.Follows (e :: h) (e.run w) := by
  cases e with
  | addSource changed source =>
    have hkept := hw.erase changed (e := .addSource changed source) fun name => by
      simp [asked?, Event.forgets]
    refine ⟨hw.files, hw.directories, fun name => ?_, hw.options, fun name => (hkept name).1,
      fun name => (hkept name).2⟩
    rw [memory?, ← hw.sources]
    exact OrderedMap.get?_insert ..
  | addDirectory directory =>
    exact { hw with directories := congrArg (· ++ [directory]) hw.directories }
  | changeFiles files => exact { hw with files := rfl }
  | get wanted => exact hw.run_get wanted
  | invalidate changed =>
    have hkept := hw.erase changed (e := .invalidate changed) fun name => by
      simp [asked?, Event.forgets]
    exact { hw with loaded := fun name => (hkept name).1, errors := fun name => (hkept name).2 }
  | clear => exact { hw with loaded := fun _ => rfl, errors := fun _ => rfl }

/-- The world after a history is as the history says. -/
theorem Origin.follows_after (o : Origin) (h : History) : o.Follows h (o.after h) := by
  induction h with
  | nil => exact o.follows_nil
  | cons e h ih => exact ih.run e

/-! ## Answers -/

/-- The template is the one that the name had when it was asked for first, or has now. -/
theorem Origin.Follows.get (hw : o.Follows h w) (name : String) :
    w.get name = o.template? ((asked? name h).getD h) name := by
  have hkept := hw.loaded name
  rw [World.get, Registry.get]
  cases hasked : asked? name h with
  | some earlier =>
    rw [hasked] at hkept
    rw [hkept]
    rfl
  | none =>
    rw [hasked] at hkept
    rw [hkept]
    show (w.registry.keep name (w.registry.load w.files name)).1 = o.template? h name
    rw [fst_keep, hw.load]
    rfl

/-- An event that is about other names, or about none, leaves the first question what it was. -/
theorem asked?_of_other {name : String} {e : Event} (hforgets : e.forgets name = false)
    (hget : e ≠ .get name) : asked? name (e :: h) = asked? name h := by
  cases e with
  | get wanted =>
    have hne : name ≠ wanted := fun heq => hget (congrArg Event.get heq.symm)
    rw [asked?, if_neg hne, Option.or_none]
  | addSource | addDirectory | changeFiles | invalidate | clear =>
    rw [asked?, hforgets]
    · rfl
    · exact nofun

/-- What had happened at the first question stays what it was until the name is forgotten. -/
theorem asked?_append {name : String} {later earlier : History}
    (hlater : ∀ e ∈ later, e.forgets name = false) (h' : asked? name h = some earlier) :
    asked? name (later ++ h) = some earlier := by
  induction later with
  | nil => exact h'
  | cons e later ih =>
    obtain ⟨he, hlater⟩ := List.forall_mem_cons.1 hlater
    have hrest := ih hlater
    rw [List.cons_append]
    by_cases hget : e = .get name
    · -- a further question is not the first
      rw [hget, asked?, hrest, Option.some_or]
    · rw [asked?_of_other he hget, hrest]

/-- A name that is asked for was asked for first now, unless it was before. -/
theorem asked?_get_self (name : String) (h : History) :
    asked? name (.get name :: h) = some ((asked? name h).getD h) := by
  rw [asked?, if_pos rfl]
  cases asked? name h <;> rfl

/-- The error of a source names the file that is visible. -/
theorem Origin.visible?_of_reading? {name : String} {e : TemplateError}
    (h' : o.reading? h name = some (.error e)) :
    ∃ source, o.visible? h name = some (e.file, source) := by
  obtain ⟨⟨file, source⟩, hvisible, hread⟩ := Option.map_eq_some_iff.1 h'
  have hfile : e.file = file := parseTemplate_file hread
  exact ⟨source, hfile ▸ hvisible⟩

theorem failureOf_eq_some {outcome : Option (Except TemplateError Node)} {e : TemplateError} :
    failureOf outcome = some e ↔ outcome = some (.error e) := by
  unfold failureOf
  split <;> simp

/-- A registry answers from the right source, whatever happened to it and its files. A name gets
the template of the source that was visible for it when it was asked for for the first time since it
was last forgotten, or that is visible now if it was not asked for since then; asking again gives
the same until the name is forgotten. It has an error exactly if it was asked for since then and
the source that was visible could not be read, and then the error is that of this source and names
the file of this source. No event about other names gives it an error or takes one from it. -/
theorem answers_after (o : Origin) (h : History) (name : String) :
    (o.after h).get name = o.template? ((asked? name h).getD h) name ∧
      (∀ later : History, (∀ e ∈ later, e.forgets name = false) →
        (o.after (later ++ .get name :: h)).get name = (o.after h).get name) ∧
      (∀ e, (o.after h).registry.error? name = some e ↔
        ∃ earlier, asked? name h = some earlier ∧ o.reading? earlier name = some (.error e)) ∧
      (∀ e, (o.after h).registry.error? name = some e →
        ∃ earlier source, asked? name h = some earlier ∧
          o.visible? earlier name = some (e.file, source)) ∧
      ∀ event : Event, event.forgets name = false → event ≠ .get name →
        (o.after (event :: h)).registry.error? name = (o.after h).registry.error? name := by
  have hkept (h : History) : (o.after h).registry.error? name =
      (asked? name h).bind (o.failure? · name) := (o.follows_after h).errors name
  have herror (e : TemplateError) : (o.after h).registry.error? name = some e ↔
      ∃ earlier, asked? name h = some earlier ∧ o.reading? earlier name = some (.error e) := by
    rw [hkept, Option.bind_eq_some_iff]
    simp only [Origin.failure?, failureOf_eq_some]
  refine ⟨(o.follows_after h).get name, fun later hlater => ?_, herror, fun e he => ?_,
    fun event hforgets hget => ?_⟩
  · have hasked := asked?_append hlater (asked?_get_self name h)
    rw [(o.follows_after _).get, (o.follows_after h).get, hasked, Option.getD_some]
  · obtain ⟨earlier, hasked, hreading⟩ := (herror e).1 he
    obtain ⟨source, hvisible⟩ := Origin.visible?_of_reading? hreading
    exact ⟨earlier, source, hasked, hvisible⟩
  · rw [hkept, hkept, asked?_of_other hforgets hget]

/-- A source that cannot be read has its error after another name was asked for and a directory was
added, and is not read again when a file of its name is made. -/
theorem answers_after_failed :
    let o : Origin := ⟨[], {}, .empty⟩
    let asked : History := [.get "Broken", .addSource "Broken" "</p>", .addSource "Fine" ""]
    let h : History := .addDirectory "views" :: .get "Fine" :: asked
    let later : History := [.changeFiles ⟨.ofList [(["views", "Broken.html"], .file "")]⟩]
    let failure : TemplateError := ⟨.unexpectedCloseTag, "Broken.html", .start, some "</p>"⟩
    (∀ e ∈ later, e.forgets "Broken" = false) ∧
      (o.after (later ++ .get "Broken" :: h)).get "Broken" = (o.after h).get "Broken" ∧
      (o.after h).registry.error? "Broken" = some failure ∧
      (∃ earlier source, asked? "Broken" h = some earlier ∧
        o.visible? earlier "Broken" = some (failure.file, source)) ∧
      (o.after (.invalidate "Fine" :: h)).registry.error? "Broken" = some failure := by
  intro o asked h later failure
  obtain ⟨-, hagain, herror, hfile, hothers⟩ := answers_after o h "Broken"
  have hlater : ∀ e ∈ later, e.forgets "Broken" = false := List.forall_mem_singleton.2 rfl
  have hread : o.failure? asked.tail "Broken" = some failure := by decide +kernel
  have hfailed := (herror failure).2 ⟨asked.tail, by simp [h, asked, asked?, Event.forgets],
    failureOf_eq_some.1 hread⟩
  have hother := hothers (.invalidate "Fine") rfl nofun
  exact ⟨hlater, hagain later hlater, hfailed, hfile failure hfailed, hother.trans hfailed⟩

end Registry
end ReactiveView
