import ReactiveView.Program.Cache
import ReactiveView.Proofs.Artifacts.Programs
import ReactiveView.Proofs.Artifacts.Volumes

/-!
# A kept program is read back

Once an artifact is stored, it is loaded as the same program, whatever is done in the same directory
with artifacts of other names and applications. The program has to stay within the limits of its
written form (`ArtifactCache.load_of_readText`), and a use of the directory leads to files of its
own as long as the applications have directories of their own (`CacheUse.readText_after`): the names
`""`, `"."` and `".."` stand for none.
-/

namespace ReactiveView

open Volume (locationOf wayTo enter Spares)

/-- A name of one directory, different from the one that it stands in. -/
def IsOwnName (name : String) : Prop := '/' ∉ name.toList ∧ name ≠ "" ∧ name ≠ "." ∧ name ≠ ".."

instance (name : String) : Decidable (IsOwnName name) := instDecidableAnd

theorem IsOwnName.enter_eq {name : String} (h : IsOwnName name) (location : Location) :
    enter location name = location ++ [name] := by
  rw [enter, if_neg (by simp [h.2.1, h.2.2.1]), if_neg h.2.2.2]

namespace ArtifactCache

variable {c : ArtifactCache} {name : String}

/-- The file of an artifact has a name of its own. -/
theorem isOwnName_file (hname : '/' ∉ name.toList) : IsOwnName (name ++ ".json") := by
  have hdot : (name ++ ".json").toList = name.toList ++ ['.', 'j', 's', 'o', 'n'] := by
    rw [String.toList_append]
    rfl
  have hne (s : String) (hs : s.toList.length < 5) : name ++ ".json" ≠ s := by
    rintro rfl
    simp only [hdot, List.length_append, List.length_cons, List.length_nil] at hs
    omega
  refine ⟨?_, hne "" (by decide), hne "." (by decide), hne ".." (by decide)⟩
  rw [hdot]
  simp [hname]

theorem locationOf_ownDirectory (hown : '/' ∉ c.keptIn.toList) :
    locationOf c.ownDirectory = enter (locationOf c.directory) c.keptIn :=
  Volume.locationOf_joinPath c.directory hown

theorem locationOf_path (hown : '/' ∉ c.keptIn.toList) (hname : '/' ∉ name.toList) :
    locationOf (c.path name) =
      enter (locationOf c.directory) c.keptIn ++ [name ++ ".json"] := by
  rw [path, Volume.locationOf_joinPath _ (isOwnName_file hname).1, locationOf_ownDirectory hown,
    (isOwnName_file hname).enter_eq]

/-- The way to an artifact leads straight to its file. -/
theorem prefix_of_mem_wayTo (hup : ".." ∉ (Volume.pathNames c.directory).2)
    (hown : IsOwnName c.keptIn) (hname : '/' ∉ name.toList) {l : Location}
    (hl : l ∈ wayTo (c.path name)) : l <+: locationOf (c.path name) :=
  Volume.way_prefix (Volume.not_up_joinPath (isOwnName_file hname).1 (isOwnName_file hname).2.2.2
    (Volume.not_up_joinPath hown.1 hown.2.2.2 hup)) hl

/-- Artifacts of another name or another application have another file, if the application has a
directory of its own. -/
theorem locationOf_path_ne {keptIn other : String} (hown : IsOwnName c.keptIn)
    (hname : '/' ∉ name.toList) (hkept : '/' ∉ keptIn.toList) (hother : '/' ∉ other.toList)
    (hne : (keptIn, other) ≠ (c.keptIn, name)) :
    locationOf (c.path name) ≠ locationOf (path ⟨c.directory, keptIn⟩ other) := by
  intro h
  rw [locationOf_path hown.1 hname, locationOf_path hkept hother, hown.enter_eq] at h
  obtain ⟨hdirectory, hfile⟩ := List.append_inj' h rfl
  have hlength := congrArg List.length hdirectory
  have hsame : keptIn = c.keptIn := by
    unfold enter at hdirectory hlength
    split_ifs at hdirectory hlength
    · simp only [List.length_append, List.length_singleton] at hlength
      omega
    · simp only [List.length_append, List.length_singleton, List.length_dropLast] at hlength
      omega
    · simpa using hdirectory.symm
  refine hne (Prod.ext hsame ?_)
  simpa using hfile.symm

theorem write_of_store {files stored : Volume} {p : Program} (h : c.store files p = .ok stored) :
    files.write (c.path p.name) (some (c.text p)) = .ok stored := by
  unfold store ofFile at h
  split at h
  · next hwrite => rw [hwrite, Except.ok.inj h]
  · cases h

/-- A removal that succeeds has removed something, or there was nothing to remove. -/
theorem of_removal {files left : Volume} {r : Except FileError Volume}
    (h : removal files r = .ok left) : r = .ok left ∨ left = files := by
  unfold removal at h
  split at h
  · exact .inl (congrArg Except.ok (Except.ok.inj h))
  · exact .inr (Except.ok.inj h).symm
  · cases h

end ArtifactCache

/-! ## Uses of a directory of artifacts -/

/-- One use of a directory of artifacts. -/
inductive CacheUse where
  /-- An artifact is loaded. -/
  | load (keptIn name hash : String)
  /-- A program is kept. -/
  | store (keptIn : String) (p : Program)
  /-- An artifact is removed. -/
  | remove (keptIn name : String)
  /-- Every artifact of an application is removed. -/
  | clear (keptIn : String)

namespace CacheUse

/-- The outcome of a use of a directory. -/
def outcome (directory : String) (files : Volume) : CacheUse → Except CacheError Volume
  | load .. => .ok files
  | store keptIn p => ArtifactCache.store ⟨directory, keptIn⟩ files p
  | remove keptIn name => ArtifactCache.remove ⟨directory, keptIn⟩ files name
  | clear keptIn => ArtifactCache.clear ⟨directory, keptIn⟩ files

/-- The files after a use of a directory. A use that fails leaves them as they are. -/
def after (directory : String) (files : Volume) (use : CacheUse) : Volume :=
  match use.outcome directory files with
  | .ok files => files
  | .error _ => files

/-- A use that is about artifacts of another name or another application. -/
def Spares (keptIn name : String) : CacheUse → Prop
  | load .. => True
  | store k p => '/' ∉ k.toList ∧ '/' ∉ p.name.toList ∧ (k, p.name) ≠ (keptIn, name)
  | remove k n => '/' ∉ k.toList ∧ '/' ∉ n.toList ∧ (k, n) ≠ (keptIn, name)
  | clear k => IsOwnName k ∧ k ≠ keptIn

variable {c : ArtifactCache} {name text : String} {files left : Volume} {use : CacheUse}

/-- The text of an artifact is read again after a use that is about other artifacts. -/
theorem readText_outcome (hup : ".." ∉ (Volume.pathNames c.directory).2)
    (hown : IsOwnName c.keptIn) (hname : '/' ∉ name.toList) (huse : use.Spares c.keptIn name)
    (hread : files.readText (c.path name) = .ok text)
    (h : use.outcome c.directory files = .ok left) :
    left.readText (c.path name) = .ok text := by
  cases use with
  | load =>
    cases h
    exact hread
  | store k p =>
    obtain ⟨hk, hp, hne⟩ := huse
    obtain ⟨-, -, hnot, hspared⟩ := Volume.write_ok (ArtifactCache.write_of_store h)
    exact Volume.readText_of_other hnot (ArtifactCache.locationOf_path_ne hown hname hk hp hne)
      hspared hread
  | remove k n =>
    obtain ⟨hk, hn, hne⟩ := huse
    rcases ArtifactCache.of_removal h with hremoved | rfl
    · obtain ⟨hnot, hspared⟩ := Volume.removeFile_ok hremoved
      exact Volume.readText_of_other hnot (ArtifactCache.locationOf_path_ne hown hname hk hn hne)
        hspared hread
    · exact hread
  | clear k =>
    obtain ⟨hk, hne⟩ := huse
    rcases ArtifactCache.of_removal h with hcleared | rfl
    · -- What is removed stands in another directory, and no place on the way does.
      have hspared := Volume.removeDirectory_ok hcleared
      have houtside {l : Location} (hl : l <+: locationOf (c.path name)) :
          ¬ locationOf (ArtifactCache.ownDirectory ⟨c.directory, k⟩) <+: l := by
        intro hin
        have hprefix := hin.trans hl
        rw [ArtifactCache.locationOf_ownDirectory hk.1, hk.enter_eq,
          ArtifactCache.locationOf_path hown.1 hname, hown.enter_eq, List.append_assoc,
          List.prefix_append_right_inj] at hprefix
        exact hne (List.cons_prefix_cons.1 hprefix).1
      exact Volume.readText_of_spared
        (fun l hl => hspared l (houtside (ArtifactCache.prefix_of_mem_wayTo hup hown hname hl)))
        (hspared _ (houtside List.prefix_rfl)) hread
    · exact hread

theorem readText_after (hup : ".." ∉ (Volume.pathNames c.directory).2)
    (hown : IsOwnName c.keptIn) (hname : '/' ∉ name.toList) (huse : use.Spares c.keptIn name)
    (hread : files.readText (c.path name) = .ok text) :
    (use.after c.directory files).readText (c.path name) = .ok text := by
  unfold after
  split
  · next left h => exact readText_outcome hup hown hname huse hread h
  · exact hread

end CacheUse

namespace ArtifactCache

/-- What is written of a program. -/
def written (c : ArtifactCache) (p : Program) : Json :=
  Artifact.toJson ⟨Artifact.currentVersion, c.keptIn, p⟩

variable {c : ArtifactCache} {p : Program}

/-- A program within the limits of the written form is loaded from its text. -/
theorem load_of_readText {files : Volume} (hwords : ∀ w ∈ p.words, w < UInt32.size)
    (hfloats : ∀ x ∈ (c.written p).floats, Json.ReadsBack x)
    (hheight : (c.written p).height < Decoder.depthLimit)
    (hread : files.readText (c.path p.name) = .ok (c.text p)) :
    c.load files p.name p.hash = .ok (some p) := by
  have hrun : Decoder.run Artifact.decoder (c.text p) =
      some ⟨Artifact.currentVersion, c.keptIn, p⟩ :=
    Artifact.run_decoder (Nat.lt_of_succ_le (by decide : 2 ≤ UInt32.size)) hwords hfloats hheight
  have haccepts : c.accepts p.name p.hash ⟨Artifact.currentVersion, c.keptIn, p⟩ = true := by
    simp [accepts]
  unfold load
  rw [hread]
  simp only [hrun, haccepts, if_true]

/-- After a program was kept it is loaded as the same program, whatever is then done with artifacts
of other names and applications in the same directory. The limits of the written form are the ones
that keeping does not check: the numbers are words of 32 bits, the floats read back, and the nesting
stays below the depth at which a text is refused. -/
theorem load_after_store {files stored : Volume} {uses : List CacheUse}
    (hup : ".." ∉ (Volume.pathNames c.directory).2) (hown : IsOwnName c.keptIn)
    (hname : '/' ∉ p.name.toList) (hwords : ∀ w ∈ p.words, w < UInt32.size)
    (hfloats : ∀ x ∈ (c.written p).floats, Json.ReadsBack x)
    (hheight : (c.written p).height < Decoder.depthLimit)
    (hstore : c.store files p = .ok stored)
    (huses : ∀ use ∈ uses, use.Spares c.keptIn p.name) :
    c.load (uses.foldl (CacheUse.after c.directory) stored) p.name p.hash = .ok (some p) := by
  have hread := Volume.readText_of_write (write_of_store hstore)
  refine load_of_readText hwords hfloats hheight ?_
  clear hstore
  induction uses generalizing stored with
  | nil => exact hread
  | cons use uses ih =>
    exact ih (fun use h => huses use (List.mem_cons_of_mem _ h))
      (CacheUse.readText_after hup hown hname (huses use List.mem_cons_self) hread)

/-- A page is loaded as it was kept after another page of its application was kept, and after
another application was cleared. -/
theorem load_after_store_page :
    let c : ArtifactCache := ⟨"cache", "app"⟩
    let p : Program := ⟨"Main", "f1", [⟨.entry, [.element "b" [] (.text (.literal "x"))]⟩]⟩
    let uses : List CacheUse := [.store "app" ⟨"Other", "f2", []⟩, .clear "web"]
    ∃ stored, c.store .empty p = .ok stored ∧
      c.load (uses.foldl (CacheUse.after c.directory) stored) p.name p.hash = .ok (some p) := by
  intro c p uses
  have hnames : Volume.pathNames (c.path p.name) = ([], ["cache", "app", "Main.json"]) := by
    decide +kernel
  have hsizes : ¬ 255 < "cache".utf8ByteSize ∧ ¬ 255 < "app".utf8ByteSize ∧
      ¬ 255 < "Main.json".utf8ByteSize := by decide
  obtain ⟨stored, hstore⟩ : ∃ stored, c.store .empty p = .ok stored := by
    refine ⟨⟨⟨[(["cache"], .directory), (["cache", "app"], .directory),
      (["cache", "app", "Main.json"], .file (some (c.text p)))]⟩⟩, ?_⟩
    rw [store, Volume.write, hnames]
    simp [ofFile, Volume.makeWay, Volume.makeDirectoryAt, Volume.follow, Volume.writeAt,
      Volume.entry?, Volume.isOutermost, Volume.empty, Volume.nameLimit, hsizes, bind, Except.bind,
      pure, Except.pure, OrderedMap.insert, OrderedMap.put, OrderedMap.get?, OrderedMap.find?,
      OrderedMap.empty]
  refine ⟨stored, hstore, load_after_store (by decide) (by decide) (by decide) (by decide) ?_
    (by decide) hstore ?_⟩
  · intro x hx
    cases hx
  · intro use huse
    simp only [uses, List.mem_cons, List.not_mem_nil, or_false] at huse
    rcases huse with rfl | rfl
    · exact ⟨by decide, by decide, by decide⟩
    · exact ⟨by decide, by decide⟩

end ArtifactCache
end ReactiveView
