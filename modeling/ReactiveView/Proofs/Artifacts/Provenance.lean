import ReactiveView.Proofs.Artifacts.Caching
import ReactiveView.Proofs.Lookups

/-!
# Where programs come from

Libraries that compile the templates of their registries may share their files, and with them the
programs that each of them has kept (`Workshop`). A program that a library finds was compiled at
some moment, by it or by another one (`Workshop.Compiled`): what stands in the place of an artifact
was written there when a program was compiled (`Workshop.genuine_after`), and is taken for that
program only if the visible source has the fingerprint of the source of that moment.

So a program is that of the visible source if all registries read templates alike and none of them
was asked to compile what it had read from another source (`Workshop.program_of_source`). What a
registry has read is said of its diary, the history of what happened to it and to the files.
-/

namespace ReactiveView

/-! ## Files that a write leaves alone -/

namespace Volume

/-- The text of the file at a location. -/
def Holds (v : Volume) (location : Location) (text : String) : Prop :=
  v.entry? location = some (.file (some text))

variable {v w : Volume} {location found : Location} {names : List String} {path text : String}

/-- There are no files at first. -/
theorem not_holds_empty (location : Location) (text : String) :
    ¬ Volume.empty.Holds location text := by
  intro h
  unfold Holds entry? at h
  split at h <;> cases h

/-- Making a directory makes no file. -/
theorem Holds.of_makeDirectoryAt (h : v.makeDirectoryAt location = .ok w) {l : Location}
    (hl : w.Holds l text) : v.Holds l text := by
  unfold makeDirectoryAt at h
  split at h
  · cases h
    exact hl
  · cases h
  · next hnone =>
    cases h
    have houtermost : isOutermost location = false :=
      not_outermost (v := v) (by simp [hnone])
    by_cases heq : l = location
    · subst heq
      rw [Holds, entry?_insert_self houtermost] at hl
      cases hl
    · rwa [Holds, entry?_insert_of_ne heq] at hl

/-- Making the way makes no file. -/
theorem Holds.of_makeWay (h : v.makeWay location names = .ok (found, w)) {l : Location}
    (hl : w.Holds l text) : v.Holds l text := by
  induction names generalizing location v with
  | nil =>
    rw [makeWay] at h
    cases hmake : v.makeDirectoryAt location with
    | error e =>
      rw [hmake] at h
      cases h
    | ok u =>
      rw [hmake] at h
      cases h
      exact .of_makeDirectoryAt hmake hl
  | cons name names ih =>
    rw [makeWay] at h
    cases hmake : v.makeDirectoryAt location with
    | error e =>
      rw [hmake] at h
      cases h
    | ok u =>
      rw [hmake] at h
      cases hfollow : u.follow location [name] with
      | error e =>
        simp only [bind, Except.bind, hfollow] at h
        cases h
      | ok next =>
        simp only [bind, Except.bind, hfollow] at h
        exact .of_makeDirectoryAt hmake (ih h)

/-- After a text was written, a file that holds a text held it before, or holds what was written. -/
theorem Holds.of_write {written : String} (h : v.write path (some written) = .ok w) {l : Location}
    (hl : w.Holds l text) : v.Holds l text ∨ text = written := by
  unfold write at h
  generalize pathNames path = start at h
  obtain ⟨start, names⟩ := start
  dsimp only at h
  cases hmake : v.makeWay start names.dropLast with
  | error e =>
    simp only [bind, Except.bind, hmake] at h
    cases h
  | ok made =>
    obtain ⟨directory, u⟩ := made
    cases hfollow : u.follow directory (names.drop (names.length - 1)) with
    | error e =>
      simp only [bind, Except.bind, hmake, hfollow] at h
      cases h
    | ok location =>
      simp only [bind, Except.bind, hmake, hfollow] at h
      obtain ⟨-, hwritten, -⟩ := writeAt_ok h
      by_cases heq : l = location
      · subst heq
        rw [Holds, hwritten] at hl
        cases hl
        exact .inr rfl
      · refine .inl (.of_makeWay hmake ?_)
        unfold writeAt at h
        split at h
        · cases h
        · cases h
          rwa [Holds, entry?_insert_of_ne heq] at hl

end Volume

/-! ## Texts of programs -/

namespace ArtifactCache

/-- A program within the limits of its written form: its numbers are words of 32 bits, its floats
read back, and its nesting stays below the depth at which a text is refused. -/
structure Legible (c : ArtifactCache) (p : Program) : Prop where
  /-- The numbers. -/
  words : ∀ w ∈ p.words, w < UInt32.size
  /-- The floats. -/
  floats : ∀ x ∈ (c.written p).floats, Json.ReadsBack x
  /-- The nesting. -/
  height : (c.written p).height < Decoder.depthLimit

variable {c kept : ArtifactCache} {files : Volume} {p q : Program} {name hash text : String}

/-- What is loaded was read from the place of the artifact. -/
theorem holds_of_load (h : c.load files name hash = .ok (some p)) :
    ∃ text, files.Holds (Volume.locationOf (c.path name)) text := by
  unfold load at h
  cases hread : files.readText (c.path name) with
  | error e =>
    rw [hread] at h
    cases e <;> cases h
  | ok text => exact ⟨text, (Volume.readText_eq_ok_iff.1 hread).2⟩

/-- From the text of a program that program is loaded, if any is, and only under its own name and
for the fingerprint of its source. -/
theorem eq_of_load (hq : kept.Legible q)
    (hholds : files.Holds (Volume.locationOf (c.path name)) (kept.text q))
    (h : c.load files name hash = .ok (some p)) : p = q ∧ q.name = name ∧ q.hash = hash := by
  unfold load at h
  cases hread : files.readText (c.path name) with
  | error e =>
    rw [hread] at h
    cases e <;> cases h
  | ok text =>
    have htext : text = kept.text q := by
      have hentry := (Volume.readText_eq_ok_iff.1 hread).2.symm.trans hholds
      simpa using hentry
    have hrun : Decoder.run Artifact.decoder text =
        some ⟨Artifact.currentVersion, kept.keptIn, q⟩ :=
      htext ▸ Artifact.run_decoder (Nat.lt_of_succ_le (by decide : 2 ≤ UInt32.size)) hq.words
        hq.floats hq.height
    rw [hread] at h
    simp only [hrun] at h
    split at h
    · next haccepts =>
      simp only [accepts, Bool.and_eq_true, decide_eq_true_eq] at haccepts
      cases h
      exact ⟨rfl, haccepts.1.2, haccepts.2⟩
    · cases h

end ArtifactCache

/-! ## Libraries that compile -/

namespace Library

/-- Whether a library compiles a template when it is asked for a name: it has kept no program that
is of the present source. -/
def isCompiling (l : Library) (name : String) : Bool :=
  match l.execution with
  | .compiled programs cache => (programs.get? name).isNone &&
    (l.registry.source? l.files name).any fun source =>
      (l.loadArtifact cache name (contentHash source)).isNone
  | _ => false

/-- What a library that compiles does when it is asked for a name. -/
inductive Resolves (l : Library) (programs : OrderedMap String Program)
    (cache : Option ArtifactCache) (name : String) : Option Routine → Library → Prop
  /-- It has the program. -/
  | kept {p : Program} (program : programs.get? name = some p) :
      Resolves l programs cache name (some (.program p)) l
  /-- There is no source. -/
  | absent (new : programs.get? name = none) (source : l.registry.source? l.files name = none) :
      Resolves l programs cache name none l
  /-- The program is read from a file. -/
  | loaded {source : String} {p : Program} (new : programs.get? name = none)
      (source_eq : l.registry.source? l.files name = some source)
      (artifact : l.loadArtifact cache name (contentHash source) = some p) :
      Resolves l programs cache name (some (.program p))
        { l with execution := .compiled (programs.insert name p) cache }
  /-- The source cannot be read. -/
  | unreadable (compiling : l.isCompiling name = true)
      (tree : (l.registry.get l.files name).1 = none) :
      Resolves l programs cache name none { l with registry := (l.registry.get l.files name).2 }
  /-- The template is compiled. -/
  | compiled {source : String} {root : Node} (compiling : l.isCompiling name = true)
      (source_eq : l.registry.source? l.files name = some source)
      (tree : (l.registry.get l.files name).1 = some root) :
      Resolves l programs cache name (some (.program (compile name root (contentHash source))))
        { registry := (l.registry.get l.files name).2
          execution := .compiled
            (programs.insert name (compile name root (contentHash source))) cache
          files := storeArtifact l.files cache (compile name root (contentHash source)) }

/-- There is nothing else that it does. -/
theorem resolves {l : Library} {programs : OrderedMap String Program}
    {cache : Option ArtifactCache} (h : l.execution = .compiled programs cache) (name : String) :
    l.Resolves programs cache name (l.resolve name).1 (l.resolve name).2 := by
  simp only [resolve, h, program]
  cases hp : programs.get? name with
  | some p => exact .kept hp
  | none =>
    cases hs : l.registry.source? l.files name with
    | none => exact .absent hp hs
    | some source =>
      dsimp only
      cases ha : l.loadArtifact cache name (contentHash source) with
      | some p => exact .loaded hp hs ha
      | none =>
        have hcompiling : l.isCompiling name = true := by
          simp [isCompiling, h, hp, hs, ha]
        cases ht : (l.registry.get l.files name).1 with
        | none =>
          simp only [compileTemplate, ht, Option.map_none]
          exact .unreadable hcompiling ht
        | some root =>
          simp only [compileTemplate, ht]
          exact .compiled hcompiling hs ht

variable {l l' : Library} {programs : OrderedMap String Program} {cache : Option ArtifactCache}
  {name : String} {found : Option Routine}

/-- It goes on compiling, and keeps programs where it did. -/
theorem Resolves.execution (h : l.Resolves programs cache name found l')
    (hl : l.execution = .compiled programs cache) :
    ∃ programs, l'.execution = .compiled programs cache := by
  cases h with
  | kept | absent | unreadable => exact ⟨programs, hl⟩
  | loaded | compiled => exact ⟨_, rfl⟩

/-- Its registry is asked for the template if it compiles. -/
theorem Resolves.registry (h : l.Resolves programs cache name found l')
    (hl : l.execution = .compiled programs cache) :
    l'.registry =
      if l.isCompiling name = true then (l.registry.get l.files name).2 else l.registry := by
  cases h with
  | kept program => simp [isCompiling, hl, program]
  | absent new source => simp [isCompiling, hl, new, source]
  | loaded new source_eq artifact => simp [isCompiling, hl, new, source_eq, artifact]
  | unreadable compiling => simp [compiling]
  | compiled compiling => simp [compiling]

/-- A program that it did not have is loaded or compiled for the present source. -/
theorem Resolves.new {p : Program} (h : l.Resolves programs cache name (some (.program p)) l')
    (hnew : programs.get? name = none) :
    ∃ source, l.registry.source? l.files name = some source ∧
      (l.loadArtifact cache name (contentHash source) = some p ∨
        ∃ root, l.isCompiling name = true ∧ (l.registry.get l.files name).1 = some root ∧
          p = compile name root (contentHash source)) := by
  cases h with
  | kept program =>
    rw [hnew] at program
    cases program
  | @loaded source _ _ source_eq artifact => exact ⟨source, source_eq, .inl artifact⟩
  | @compiled source root compiling source_eq tree =>
    exact ⟨source, source_eq, .inr ⟨root, compiling, tree, rfl⟩⟩

/-- It has a program for a source that the registry can read. -/
theorem Resolves.finds {source : String} {root : Node} (h : l.Resolves programs cache name found l')
    (hsource : l.registry.source? l.files name = some source)
    (htree : (l.registry.get l.files name).1 = some root) : ∃ p, found = some (.program p) := by
  cases h with
  | kept | loaded | compiled => exact ⟨_, rfl⟩
  | absent _ source => simp [hsource] at source
  | unreadable _ tree => simp [htree] at tree

/-- Files hold what they held, unless a program is kept. -/
theorem Resolves.holds (h : l.Resolves programs cache name found l') {location : Location}
    {text : String} (hl : l'.files.Holds location text) :
    l.files.Holds location text ∨ ∃ source root c, l.isCompiling name = true ∧
      l.registry.source? l.files name = some source ∧
      (l.registry.get l.files name).1 = some root ∧ cache = some c ∧
      text = c.text (compile name root (contentHash source)) := by
  cases h with
  | kept | absent | loaded | unreadable => exact .inl hl
  | @compiled source root compiling source_eq tree =>
    cases cache with
    | none => exact .inl hl
    | some c =>
      simp only [storeArtifact] at hl
      cases hstore : c.store l.files (compile name root (contentHash source)) with
      | error e =>
        rw [hstore] at hl
        exact .inl hl
      | ok stored =>
        rw [hstore] at hl
        rcases Volume.Holds.of_write (ArtifactCache.write_of_store hstore) hl with hold | rfl
        · exact .inl hold
        · exact .inr ⟨source, root, c, compiling, source_eq, tree, rfl, rfl⟩

end Library

namespace Registry

variable {o : Origin} {h : History} {w : World}

/-- The present source of a name is the one that is visible. -/
theorem Origin.Follows.source? (hw : o.Follows h w) (name : String) :
    w.registry.source? w.files name = (o.visible? h name).map (·.2) := by
  have hfile : w.registry.file? w.files name = o.found? h name := by
    rw [Registry.file?, Origin.found?, hw.files, hw.directories]
  rw [Registry.source?, hw.sources, hfile, hw.files, Origin.visible?]
  cases memory? name h with
  | some source => rfl
  | none =>
    cases o.found? h name with
    | none => rfl
    | some path =>
      simp only [Option.bind_eq_bind, Option.bind_some]
      cases ((o.filesAfter h).readText path).toOption <;> rfl

end Registry

/-! ## Workshops -/

namespace Workshop

/-- How a library is made. -/
structure Member where
  /-- The directories that its registry is made with. -/
  directories : List String
  /-- How its registry reads templates. -/
  options : ParserOptions
  /-- Where it keeps programs. -/
  cache : Option ArtifactCache

/-- What happens to a library, to its registry, or to the files. -/
inductive Event (ι : Type) where
  /-- Something happens to the registry or to the files that it reads. -/
  | registry (i : ι) (e : Registry.Event)
  /-- A library is asked for a name. -/
  | resolve (i : ι) (name : String)
  /-- A library forgets what was read and compiled for a name. -/
  | invalidate (i : ι) (name : String)

/-- What happened so far, the newest event first. -/
abbrev History (ι : Type) := List (Event ι)

/-- Libraries and the files that they share. -/
structure World (ι : Type) where
  /-- The libraries, but for their files. -/
  library : ι → Library
  /-- The files. -/
  files : Volume

end Workshop

/-- Libraries that compile and share their files, before anything happens. -/
structure Workshop (ι : Type) where
  /-- The libraries. -/
  member : ι → Workshop.Member
  /-- The files. -/
  files : Volume

namespace Workshop

variable {ι : Type}

/-- A library with its files. -/
def World.at (w : World ι) (i : ι) : Library := { w.library i with files := w.files }

@[simp] theorem World.registry_at (w : World ι) (i : ι) :
    (w.at i).registry = (w.library i).registry := rfl

@[simp] theorem World.execution_at (w : World ι) (i : ι) :
    (w.at i).execution = (w.library i).execution := rfl

@[simp] theorem World.files_at (w : World ι) (i : ι) : (w.at i).files = w.files := rfl

variable [DecidableEq ι]

/-- The world after something happened to one library and to the files. -/
def World.put (w : World ι) (i : ι) (l : Library) : World ι :=
  ⟨fun j => if j = i then l else w.library j, l.files⟩

@[simp] theorem World.library_put_self (w : World ι) (i : ι) (l : Library) :
    (w.put i l).library i = l := if_pos rfl

@[simp] theorem World.library_put_of_ne (w : World ι) {i j : ι} (l : Library) (h : j ≠ i) :
    (w.put i l).library j = w.library j := if_neg h

@[simp] theorem World.files_put (w : World ι) (i : ι) (l : Library) :
    (w.put i l).files = l.files := rfl

/-- What an event makes of a world. -/
def Event.run (w : World ι) : Event ι → World ι
  | registry i e =>
    let r := e.run ⟨(w.library i).registry, w.files⟩
    w.put i { w.library i with registry := r.registry, files := r.files }
  | resolve i name => w.put i ((w.at i).resolve name).2
  | invalidate i name => w.put i ((w.at i).invalidate name)

/-- What an event is for the registry of a library, but for what it makes of the files. -/
def Event.entry (w : World ι) (i : ι) : Event ι → Registry.History
  | registry j e => if j = i then [e] else []
  | resolve j name => if j = i ∧ (w.at j).isCompiling name then [.get name] else []
  | invalidate j name => if j = i then [.invalidate name] else []

variable (s : Workshop ι)

/-- The registry of a library before anything happens, and the files. -/
def origin (i : ι) : Registry.Origin := ⟨(s.member i).directories, (s.member i).options, s.files⟩

/-- The world after what happened. -/
def after : History ι → World ι
  | [] => ⟨fun i => ⟨{ directories := (s.member i).directories, options := (s.member i).options },
      .compiled .empty (s.member i).cache, s.files⟩, s.files⟩
  | e :: h => e.run (after h)

/-- What happened to the registry of a library and to the files. -/
def diary (i : ι) : History ι → Registry.History
  | [] => []
  | e :: h => .changeFiles (s.after (e :: h)).files :: (e.entry (s.after h) i ++ diary i h)

/-- A template that a library compiles when it is asked for a name at some moment. -/
structure Compiles (before : History ι) (i : ι) (name source : String) (root : Node) : Prop where
  /-- The library compiles. -/
  compiling : ((s.after before).at i).isCompiling name = true
  /-- The source by whose fingerprint the program is kept. -/
  source_eq : ((s.after before).at i).registry.source? (s.after before).files name = some source
  /-- The template that the registry has. -/
  tree : (((s.after before).at i).registry.get (s.after before).files name).1 = some root

/-- A program that a library has compiled. -/
def Compiled (h : History ι) (i : ι) (p : Program) : Prop :=
  ∃ before name source root, .resolve i name :: before <:+ h ∧
    s.Compiles before i name source root ∧ p = compile name root (contentHash source)

/-- A place in which some library keeps programs. -/
def Place (l : Location) : Prop :=
  ∃ i c name, (s.member i).cache = some c ∧ l = Volume.locationOf (c.path name)

/-- Nobody else puts texts into the places of programs: there are none at first, and whoever changes
files puts no other one there. -/
structure Sealed (h : History ι) : Prop where
  /-- At first there are none. -/
  start : ∀ l text, s.Place l → ¬ s.files.Holds l text
  /-- A change of files puts no other one there. -/
  changes : ∀ i files before, .registry i (.changeFiles files) :: before <:+ h →
    ∀ l text, s.Place l → files.Holds l text → (s.after before).files.Holds l text

variable {s} {h before : History ι} {i : ι} {name source : String} {p : Program}

/-! ### What libraries and registries are -/

/-- A library goes on compiling, and keeps programs where it always did. -/
theorem execution_after (s : Workshop ι) (h : History ι) (i : ι) :
    ∃ programs, ((s.after h).library i).execution = .compiled programs (s.member i).cache := by
  induction h with
  | nil => exact ⟨.empty, rfl⟩
  | cons e h ih =>
    obtain ⟨programs, hexecution⟩ := ih
    cases e with
    | registry j e =>
      refine ⟨programs, ?_⟩
      by_cases heq : i = j
      · subst heq
        simpa [after, Event.run] using hexecution
      · simpa [after, Event.run, heq] using hexecution
    | resolve j name =>
      by_cases heq : i = j
      · subst heq
        simpa [after, Event.run] using
          (Library.resolves (l := (s.after h).at i) hexecution name).execution hexecution
      · exact ⟨programs, by simpa [after, Event.run, heq] using hexecution⟩
    | invalidate j name =>
      by_cases heq : i = j
      · subst heq
        refine ⟨programs.erase name, ?_⟩
        simp [after, Event.run, Library.invalidate, hexecution]
      · exact ⟨programs, by simpa [after, Event.run, heq] using hexecution⟩

/-- A registry is as its diary says. -/
theorem follows_after (s : Workshop ι) (h : History ι) (i : ι) :
    (s.origin i).Follows (s.diary i h) ⟨((s.after h).library i).registry, (s.after h).files⟩ := by
  induction h with
  | nil => exact Registry.Origin.follows_nil _
  | cons e h ih =>
    -- the entry is what changes the registry, and then the files are what the event made of them
    suffices hentry : ∃ files, (s.origin i).Follows (e.entry (s.after h) i ++ s.diary i h)
        ⟨((e.run (s.after h)).library i).registry, files⟩ by
      obtain ⟨files, hentry⟩ := hentry
      exact hentry.run (.changeFiles _)
    cases e with
    | registry j e =>
      by_cases heq : i = j
      · subst heq
        refine ⟨(e.run ⟨((s.after h).library i).registry, (s.after h).files⟩).files, ?_⟩
        simpa [Event.entry, Event.run] using ih.run e
      · refine ⟨(s.after h).files, ?_⟩
        simpa [Event.entry, Event.run, heq, Ne.symm heq] using ih
    | resolve j name =>
      refine ⟨(s.after h).files, ?_⟩
      by_cases heq : i = j
      · subst heq
        obtain ⟨programs, hexecution⟩ := s.execution_after h i
        have hregistry := (Library.resolves (l := (s.after h).at i) hexecution name).registry
          hexecution
        by_cases hcompiling : ((s.after h).at i).isCompiling name = true
        · simpa [Event.entry, Event.run, hregistry, hcompiling, Registry.Event.run]
            using ih.run (.get name)
        · simpa [Event.entry, Event.run, hregistry, hcompiling] using ih
      · simpa [Event.entry, Event.run, heq, Ne.symm heq] using ih
    | invalidate j name =>
      refine ⟨(s.after h).files, ?_⟩
      by_cases heq : i = j
      · subst heq
        simpa [Event.entry, Event.run, Library.invalidate, Registry.Event.run]
          using ih.run (.invalidate name)
      · simpa [Event.entry, Event.run, heq, Ne.symm heq] using ih

/-! ### What stands in the places of programs -/

/-- A program that was compiled so far was compiled when more has happened. -/
theorem Compiled.cons {e : Event ι} : s.Compiled h i p → s.Compiled (e :: h) i p
  | ⟨before, name, source, root, hbefore, hcompiles, hp⟩ =>
    ⟨before, name, source, root, hbefore.trans (List.suffix_cons e h), hcompiles, hp⟩

/-- What nobody else changed so far. -/
theorem Sealed.of_cons {e : Event ι} (hs : s.Sealed (e :: h)) : s.Sealed h where
  start := hs.start
  changes i files before hbefore := hs.changes i files before (hbefore.trans (List.suffix_cons e h))

/-- In the place of a program stands a program that some library has compiled. -/
theorem genuine_after (hs : s.Sealed h) {l : Location} {text : String} (hplace : s.Place l)
    (hl : (s.after h).files.Holds l text) :
    ∃ i c p, s.Compiled h i p ∧ (s.member i).cache = some c ∧ text = c.text p := by
  induction h with
  | nil => exact absurd hl (hs.start l text hplace)
  | cons e h ih =>
    -- what stood there before is a program
    have hbefore (hold : (s.after h).files.Holds l text) :
        ∃ i c p, s.Compiled (e :: h) i p ∧ (s.member i).cache = some c ∧ text = c.text p := by
      obtain ⟨i, c, p, hp, hc, rfl⟩ := ih hs.of_cons hold
      exact ⟨i, c, p, hp.cons, hc, rfl⟩
    cases e with
    | registry i e =>
      cases e with
      | changeFiles files => exact hbefore (hs.changes i files h List.suffix_rfl l text hplace hl)
      | _ => exact hbefore hl
    | invalidate i name => exact hbefore hl
    | resolve i name =>
      obtain ⟨programs, hexecution⟩ := s.execution_after h i
      rcases (Library.resolves (l := (s.after h).at i) hexecution name).holds hl with
        hold | ⟨source, root, c, hcompiling, hsource, htree, hc, rfl⟩
      · exact hbefore hold
      · exact ⟨i, c, _, ⟨h, name, source, root, List.suffix_rfl, ⟨hcompiling, hsource, htree⟩, rfl⟩,
          hc, rfl⟩

/-! ### What is compiled -/

/-- A program that is what a source compiles to, as some registry reads it. -/
def IsOf (options : ParserOptions) (name source : String) (p : Program) : Prop :=
  p.hash = contentHash source ∧ ∃ file root,
    parseTemplate source { options with filename := file } = .ok root ∧ p = compile name root p.hash

/-- No registry is asked to compile what it has read from another source. -/
def Current (s : Workshop ι) (h : History ι) : Prop :=
  ∀ before i name source root, .resolve i name :: before <:+ h →
    s.Compiles before i name source root → ∀ first,
      Registry.asked? name (s.diary i before) = some first →
        ((s.origin i).visible? first name).map (·.2) = some source

/-- The present source of a name is the one that is visible. -/
theorem source?_after (s : Workshop ι) (h : History ι) (i : ι) (name : String) :
    ((s.after h).at i).registry.source? (s.after h).files name =
      ((s.origin i).visible? (s.diary i h) name).map (·.2) :=
  (s.follows_after h i).source? name

/-- The template of a name is that of the source that was visible when it was asked for first. -/
theorem get_after (s : Workshop ι) (h : History ι) (i : ι) (name : String) :
    (((s.after h).at i).registry.get (s.after h).files name).1 =
      (s.origin i).template? ((Registry.asked? name (s.diary i h)).getD (s.diary i h)) name :=
  (s.follows_after h i).get name

/-- A library has a program for a source that its registry can read. -/
theorem finds_after {root : Node}
    (hsource : ((s.after h).at i).registry.source? (s.after h).files name = some source)
    (htree : (((s.after h).at i).registry.get (s.after h).files name).1 = some root) :
    ∃ p, (((s.after h).at i).resolve name).1 = some (.program p) := by
  obtain ⟨programs, hexecution⟩ := s.execution_after h i
  exact (Library.resolves (l := (s.after h).at i) hexecution name).finds hsource htree

/-- A program that is compiled is that of its source, if the registry has not read another one. -/
theorem Compiles.isOf {root : Node} (hcompiles : s.Compiles before i name source root)
    (hfirst : ∀ first, Registry.asked? name (s.diary i before) = some first →
      ((s.origin i).visible? first name).map (·.2) = some source) :
    IsOf (s.member i).options name source (compile name root (contentHash source)) := by
  -- the source that the registry has read is the one that is visible
  have hread : ((s.origin i).visible? ((Registry.asked? name (s.diary i before)).getD
      (s.diary i before)) name).map (·.2) = some source := by
    cases hasked : Registry.asked? name (s.diary i before) with
    | none => exact (s.source?_after before i name).symm.trans hcompiles.source_eq
    | some first => exact hfirst first hasked
  obtain ⟨⟨file, text⟩, hvisible, htext⟩ := Option.map_eq_some_iff.1 hread
  have htree := (s.get_after before i name).symm.trans hcompiles.tree
  rw [Registry.Origin.template?, Registry.Origin.reading?, hvisible] at htree
  subst htext
  refine ⟨rfl, file, root, ?_, rfl⟩
  cases hparse : parseTemplate text { (s.member i).options with filename := file } with
  | error e =>
    simp only [Option.map_some, Option.bind_some, origin, hparse] at htree
    cases htree
  | ok node =>
    simp only [Option.map_some, Option.bind_some, origin, hparse] at htree
    rw [Option.some.inj htree]

/-- The sources that count when a library is asked for a name: the one that is visible for it, and
those for which programs were compiled. -/
inductive Involved (s : Workshop ι) (h : History ι) (i : ι) (name : String) : String → Prop
  /-- The one that is visible. -/
  | visible {source : String}
      (source_eq : ((s.after h).at i).registry.source? (s.after h).files name = some source) :
      Involved s h i name source
  /-- One for which a program was compiled. -/
  | compiled {before : History ι} {j : ι} {other source : String} {root : Node}
      (earlier : .resolve j other :: before <:+ h)
      (compiles : s.Compiles before j other source root) : Involved s h i name source

/-- A program that is loaded is one that was compiled for a source of the same fingerprint. -/
theorem of_loadArtifact (hsealed : s.Sealed h)
    (hlegible : ∀ j q, s.Compiled h j q → ∀ c, (s.member j).cache = some c → c.Legible q)
    (hp : ((s.after h).at i).loadArtifact (s.member i).cache name (contentHash source) = some p) :
    ∃ before j other root, .resolve j name :: before <:+ h ∧ s.Compiles before j name other root ∧
      contentHash other = contentHash source ∧ p = compile name root (contentHash other) := by
  obtain ⟨c, hc, hload⟩ := Option.bind_eq_some_iff.1 hp
  replace hload : c.load (s.after h).files name (contentHash source) = .ok (some p) := by
    cases hload' : c.load (s.after h).files name (contentHash source) with
    | error e => simp [hload', Except.toOption] at hload
    | ok found => simpa [hload', Except.toOption] using hload
  obtain ⟨text, htext⟩ := ArtifactCache.holds_of_load hload
  obtain ⟨j, kept, q, hq, hkept, rfl⟩ := genuine_after hsealed ⟨i, c, name, hc, rfl⟩ htext
  obtain ⟨hpq, hname, hhash⟩ := ArtifactCache.eq_of_load (hlegible j q hq kept hkept) htext hload
  obtain ⟨before, written, other, root, hbefore, hcompiles, rfl⟩ := hq
  replace hname : written = name := hname
  subst hname
  exact ⟨before, j, other, root, hbefore, hcompiles, hhash, hpq⟩

/-- A program that a library newly loads or compiles is what the visible source compiles to, as its
registry reads it, and an artifact is always what the source of its fingerprint compiles to. This is
so if only libraries put texts into the places of artifacts, and the programs stay within the limits
of the written form; if no registry is asked to compile what it has read from another source; and if
all registries read templates alike. Fingerprints are taken to tell the sources apart. -/
theorem program_of_source (hsealed : s.Sealed (.resolve i name :: h))
    (hlegible : ∀ j q, s.Compiled h j q → ∀ c, (s.member j).cache = some c → c.Legible q)
    (hcurrent : s.Current (.resolve i name :: h))
    (hoptions : ∀ j, (s.member j).options = (s.member i).options)
    (hhash : ∀ a b, s.Involved h i name a → s.Involved h i name b →
      contentHash a = contentHash b → a = b) :
    (∀ programs cache p, ((s.after h).at i).execution = .compiled programs cache →
      programs.get? name = none → (((s.after h).at i).resolve name).1 = some (.program p) →
      ∃ source, ((s.after h).at i).registry.source? (s.after h).files name = some source ∧
        IsOf (s.member i).options name source p) ∧
      ∀ l text, s.Place l → (s.after (.resolve i name :: h)).files.Holds l text →
        ∃ (c : ArtifactCache) (q : Program) (source : String), text = c.text q ∧
          IsOf (s.member i).options q.name source q := by
  have hcompiled {before j other source root} (hbefore : .resolve j other :: before <:+
      .resolve i name :: h) (hcompiles : s.Compiles before j other source root) :
      IsOf (s.member i).options other source (compile other root (contentHash source)) :=
    hoptions j ▸ hcompiles.isOf (hcurrent before j other source root hbefore hcompiles)
  constructor
  · intro programs cache p hexecution hnew hfound
    have hresolves := Library.resolves hexecution name
    rw [hfound] at hresolves
    obtain ⟨source, hsource, hloaded | ⟨root, hcompiling, htree, rfl⟩⟩ := hresolves.new hnew
    · obtain ⟨kept, hkept⟩ := s.execution_after h i
      obtain rfl : cache = (s.member i).cache := by
        rw [World.execution_at, hkept] at hexecution
        cases hexecution
        rfl
      obtain ⟨before, j, other, root, hbefore, hcompiles, hsame, rfl⟩ :=
        of_loadArtifact hsealed.of_cons hlegible hloaded
      obtain rfl := hhash other source (.compiled hbefore hcompiles) (.visible hsource) hsame
      exact ⟨other, hsource, hcompiled (hbefore.trans (List.suffix_cons _ h)) hcompiles⟩
    · exact ⟨source, hsource, hcompiled List.suffix_rfl ⟨hcompiling, hsource, htree⟩⟩
  · intro l text hplace hl
    obtain ⟨j, c, q, ⟨before, other, source, root, hbefore, hcompiles, rfl⟩, -, rfl⟩ :=
      genuine_after hsealed hplace hl
    exact ⟨c, _, source, rfl, hcompiled hbefore hcompiles⟩

/-- A page that one library has compiled and kept is what another one finds for the same source. -/
theorem program_of_source_shared :
    let cache : ArtifactCache := ⟨"cache", "app"⟩
    let s : Workshop Bool := ⟨fun _ => ⟨[], {}, some cache⟩, .empty⟩
    let h : History Bool := [.registry true (.addSource "Main" "x"), .resolve false "Main",
      .registry false (.addSource "Main" "x")]
    ∃ p, (((s.after h).at true).resolve "Main").1 = some (.program p) ∧
      IsOf {} "Main" "x" p := by
  intro cache s h
  obtain ⟨root, hroot, hprogram⟩ : ∃ root,
      parseTemplate "x" { filename := "Main.html" } = .ok root ∧ ∀ hash,
        compile "Main" root hash = ⟨"Main", hash, [⟨.entry, [.text (.literal "x")]⟩]⟩ :=
    ⟨_, rfl, fun hash => by rfl⟩
  have hlegible (hash : String) : cache.Legible (compile "Main" root hash) := by
    rw [hprogram]
    have hheight : (cache.written
        ⟨"Main", hash, [⟨.entry, [.text (.literal "x")]⟩]⟩).height = 7 := rfl
    exact ⟨nofun, nofun, hheight ▸ by decide⟩
  -- whoever is asked has the one source, which its registry has not read before
  have hasked (before : History Bool) (j : Bool) (other : String)
      (hbefore : .resolve j other :: before <:+ .resolve true "Main" :: h) : other = "Main" ∧
        Registry.asked? "Main" (s.diary j before) = none ∧
        (s.origin j).visible? (s.diary j before) "Main" = some ("Main.html", "x") := by
    simp only [h, List.suffix_cons_iff, List.suffix_nil, List.cons.injEq, Event.resolve.injEq,
      reduceCtorEq, false_and, false_or, or_false] at hbefore
    rcases hbefore with ⟨⟨rfl, rfl⟩, rfl⟩ | ⟨⟨rfl, rfl⟩, rfl⟩
    all_goals
      simp [diary, Event.entry, Registry.asked?, Registry.memory?, Registry.Event.forgets,
        Registry.Origin.visible?]
      rfl
  have hfound (before : History Bool) (j : Bool) (other : String)
      (hbefore : .resolve j other :: before <:+ .resolve true "Main" :: h) :
      ((s.after before).at j).registry.source? (s.after before).files other = some "x" ∧
        (((s.after before).at j).registry.get (s.after before).files other).1 = some root := by
    obtain ⟨rfl, hnone, hvisible⟩ := hasked before j other hbefore
    rw [source?_after, get_after, hnone, Option.getD_none, Registry.Origin.template?,
      Registry.Origin.reading?, hvisible]
    exact ⟨rfl, congrArg Except.toOption hroot⟩
  obtain ⟨hsource, htree⟩ := hfound h true "Main" List.suffix_rfl
  have hexecution : ((s.after h).at true).execution = .compiled .empty (some cache) := by
    simp [after, h, s, Event.run]
  obtain ⟨p, hp⟩ := finds_after hsource htree
  have hsealed : s.Sealed (.resolve true "Main" :: h) :=
    ⟨fun l text _ => Volume.not_holds_empty l text,
      fun i files before hbefore => by simp [h, List.suffix_cons_iff] at hbefore⟩
  have hcompiled (j : Bool) (q : Program) (hq : s.Compiled h j q) (c : ArtifactCache)
      (hc : (s.member j).cache = some c) : c.Legible q := by
    obtain ⟨before, other, source, node, hbefore, hcompiles, rfl⟩ := hq
    have hbefore := hbefore.trans (List.suffix_cons (.resolve true "Main") h)
    obtain ⟨rfl, -⟩ := hasked before j other hbefore
    obtain rfl := Option.some.inj (hcompiles.tree.symm.trans (hfound before j "Main" hbefore).2)
    cases hc
    exact hlegible _
  have hcurrent : s.Current (.resolve true "Main" :: h) := by
    intro before j other source node hbefore hcompiles first hfirst
    obtain ⟨rfl, hnone, -⟩ := hasked before j other hbefore
    simp [hnone] at hfirst
  have hinvolved {a : String} (ha : s.Involved h true "Main" a) : a = "x" := by
    cases ha with
    | visible source_eq => exact Option.some.inj (source_eq.symm.trans hsource)
    | compiled earlier compiles =>
      exact Option.some.inj (compiles.source_eq.symm.trans
        (hfound _ _ _ (earlier.trans (List.suffix_cons _ h))).1)
  have hprogramOf := program_of_source hsealed hcompiled hcurrent (fun _ => rfl)
    fun a b ha hb _ => (hinvolved ha).trans (hinvolved hb).symm
  obtain ⟨source, hsource', hof⟩ := hprogramOf.1 .empty (some cache) p hexecution rfl hp
  obtain rfl := Option.some.inj (hsource'.symm.trans hsource)
  exact ⟨p, hp, hof⟩

end Workshop
end ReactiveView
