import ReactiveView.Storage.Volume
import Mathlib.Data.List.Basic

/-!
# What a change of a volume leaves alone

Where a path leads does not depend on the volume; whether it can be followed depends only on the
directories on its way (`Volume.follow_eq_ok_iff`). So a text that was read from a file is read
again after any change that spares the places of its path (`Volume.readText_of_spared`). Writing and
removing a file spare everything but that file, and removing a directory everything outside of it.
-/

namespace ReactiveView

/-- Filtering keeps what is stored under a key that passes. -/
theorem OrderedMap.get?_filter {κ α : Type} [DecidableEq κ] {p : κ → α → Bool} {k : κ}
    (hp : ∀ a, p k a = true) (m : OrderedMap κ α) : (m.filter p).get? k = m.get? k := by
  obtain ⟨es⟩ := m
  unfold get? filter
  induction es with
  | nil => rfl
  | cons e es ih =>
    obtain ⟨j, a⟩ := e
    dsimp only at ih ⊢
    by_cases hj : j = k
    · subst hj
      simp [find?, hp]
    · by_cases hpj : p j a = true
      · simp [find?, hpj, hj, ih]
      · simp [find?, hpj, hj, ih]

namespace Volume

variable {v w : Volume} {location target found : Location} {name path text : String}
  {names : List String}

/-! ## Following names -/

/-- A name that can be looked up in a directory. -/
def Usable (name : String) : Prop :=
  name = "" ∨ name = "." ∨ name = ".." ∨
    ¬(nameLimit < name.utf8ByteSize ∨ name.contains '\x00')

/-- The location that a name leads to. -/
def enter (location : Location) (name : String) : Location :=
  if name = "" ∨ name = "." then location
  else if name = ".." then location.dropLast
  else location ++ [name]

/-- The location that names lead to. -/
def resolve (location : Location) (names : List String) : Location := names.foldl enter location

/-- The locations in which names are looked up. -/
def way (location : Location) : List String → List Location
  | [] => []
  | name :: names => location :: way (enter location name) names

theorem follow_cons (v : Volume) (location : Location) (name : String) (names : List String) :
    v.follow location (name :: names) = .ok found ↔
      v.entry? location = some .directory ∧ Usable name ∧
        v.follow (enter location name) names = .ok found := by
  rw [follow]
  cases v.entry? location with
  | none => simp
  | some e =>
    cases e with
    | file text? => simp
    | directory =>
      dsimp only
      split_ifs with hskip hup hlimit
      · simp [Usable, enter, hskip, ← or_assoc]
      · simp [Usable, enter, hup]
      · have hnot : ¬ Usable name := by
          rintro (h | h | h | h)
          · exact hskip (.inl h)
          · exact hskip (.inr h)
          · exact hup h
          · exact h hlimit
        simp [hnot]
      · have husable : Usable name := .inr (.inr (.inr hlimit))
        simp [husable, enter, hskip, hup]

/-- Names can be followed through directories, as far as they can be looked up at all. -/
theorem follow_eq_ok_iff : v.follow location names = .ok found ↔
    (∀ l ∈ way location names, v.entry? l = some .directory) ∧ (∀ name ∈ names, Usable name) ∧
      found = resolve location names := by
  induction names generalizing location with
  | nil => simp [follow, way, resolve, eq_comm]
  | cons name names ih =>
    rw [follow_cons, ih]
    simp only [way, List.forall_mem_cons, resolve, List.foldl_cons]
    tauto

theorem way_append (location : Location) (before after : List String) :
    way location (before ++ after) =
      way location before ++ way (resolve location before) after := by
  induction before generalizing location with
  | nil => rfl
  | cons name before ih => rw [List.cons_append, way, ih, way, List.cons_append]; rfl

theorem follow_append {before after : List String} {middle : Location}
    (hbefore : v.follow location before = .ok middle) (hafter : v.follow middle after = .ok found) :
    v.follow location (before ++ after) = .ok found := by
  rw [follow_eq_ok_iff] at hbefore hafter ⊢
  obtain ⟨hway, husable, rfl⟩ := hbefore
  obtain ⟨hway', husable', rfl⟩ := hafter
  rw [way_append]
  refine ⟨?_, ?_, (List.foldl_append ..).symm⟩
  · exact fun l hl => (List.mem_append.1 hl).elim (hway l) (hway' l)
  · exact fun name hname => (List.mem_append.1 hname).elim (husable name) (husable' name)

/-! ## What a change spares -/

/-- What stands at a location is still there. -/
def Spares (v w : Volume) (location : Location) : Prop :=
  ∀ e, v.entry? location = some e → w.entry? location = some e

theorem Spares.trans {u : Volume} (h : Spares v w location) (h' : Spares w u location) :
    Spares v u location := fun e he => h' e (h e he)

theorem follow_of_spared (hspared : ∀ l ∈ way location names, Spares v w l)
    (h : v.follow location names = .ok found) : w.follow location names = .ok found := by
  rw [follow_eq_ok_iff] at h ⊢
  exact ⟨fun l hl => hspared l hl _ (h.1 l hl), h.2⟩

/-- The location of a path. -/
def locationOf (path : String) : Location := resolve (pathNames path).1 (pathNames path).2

/-- The locations in which the names of a path are looked up. -/
def wayTo (path : String) : List Location := way (pathNames path).1 (pathNames path).2

theorem locate_eq_ok_iff : v.locate path = .ok found ↔
    (∀ l ∈ wayTo path, v.entry? l = some .directory) ∧ (∀ name ∈ (pathNames path).2, Usable name) ∧
      found = locationOf path := follow_eq_ok_iff

theorem readText_eq_ok_iff : v.readText path = .ok text ↔
    v.locate path = .ok (locationOf path) ∧
      v.entry? (locationOf path) = some (.file (some text)) := by
  unfold readText
  cases hlocate : v.locate path with
  | error e => simp [bind, Except.bind]
  | ok location =>
    have hlocation := (locate_eq_ok_iff.1 hlocate).2.2
    subst hlocation
    simp only [bind, Except.bind]
    split <;> simp_all [pure, Except.pure, throw, throwThe, MonadExceptOf.throw]

/-- A text is read again after a change that spares the way to it and its file. -/
theorem readText_of_spared (hway : ∀ l ∈ wayTo path, Spares v w l)
    (hfile : Spares v w (locationOf path)) (h : v.readText path = .ok text) :
    w.readText path = .ok text := by
  rw [readText_eq_ok_iff] at h ⊢
  exact ⟨follow_of_spared hway h.1, hfile _ h.2⟩

/-- A text is read again after a change of another file. -/
theorem readText_of_other (htarget : v.entry? target ≠ some .directory)
    (hne : locationOf path ≠ target) (hspared : ∀ l, l ≠ target → Spares v w l)
    (h : v.readText path = .ok text) : w.readText path = .ok text := by
  refine readText_of_spared (fun l hl => hspared l ?_) (hspared _ hne) h
  rintro rfl
  exact htarget ((locate_eq_ok_iff.1 (readText_eq_ok_iff.1 h).1).1 l hl)

/-! ## Writing and removing -/

theorem entry?_eq (v : Volume) (location : Location) : v.entry? location =
    if isOutermost location then some .directory else v.entries.get? location := rfl

theorem entry?_insert_self {e : Entry} (h : isOutermost location = false) :
    entry? ⟨v.entries.insert location e⟩ location = some e := by
  simp [entry?_eq, h]

theorem entry?_insert_of_ne {e : Entry} {l : Location} (h : l ≠ location) :
    entry? ⟨v.entries.insert location e⟩ l = v.entry? l := by
  simp [entry?_eq, OrderedMap.get?_insert_of_ne _ h]

theorem not_outermost (h : v.entry? location ≠ some .directory) : isOutermost location = false := by
  rw [← Bool.not_eq_true]
  intro houtermost
  exact h (if_pos houtermost)

theorem makeDirectoryAt_ok (h : v.makeDirectoryAt location = .ok w) :
    w.entry? location = some .directory ∧ ∀ l, Spares v w l := by
  unfold makeDirectoryAt at h
  split at h
  · next hdirectory =>
    cases h
    exact ⟨hdirectory, fun l e he => he⟩
  · cases h
  · next hnone =>
    cases h
    refine ⟨entry?_insert_self (not_outermost (v := v) (by simp [hnone])), fun l e he => ?_⟩
    rw [entry?_insert_of_ne, he]
    rintro rfl
    rw [hnone] at he
    cases he

/-- Making the way keeps all there is, and the names can be followed afterwards. -/
theorem makeWay_ok (h : v.makeWay location names = .ok (found, w)) :
    w.follow location names = .ok found ∧ ∀ l, Spares v w l := by
  induction names generalizing location v with
  | nil =>
    rw [makeWay] at h
    cases hmake : v.makeDirectoryAt location with
    | error e =>
      rw [hmake] at h
      cases h
    | ok u =>
      rw [hmake] at h
      cases h
      exact ⟨rfl, (makeDirectoryAt_ok hmake).2⟩
  | cons name names ih =>
    rw [makeWay] at h
    cases hmake : v.makeDirectoryAt location with
    | error e =>
      rw [hmake] at h
      cases h
    | ok u =>
      rw [hmake] at h
      cases hfollow : u.follow location [name] with
      | error e =>
        simp only [bind, Except.bind, hfollow] at h
        cases h
      | ok next =>
        simp only [bind, Except.bind, hfollow] at h
        obtain ⟨hrest, hspared⟩ := ih h
        have hfirst := follow_of_spared (fun l _ => hspared l) hfollow
        exact ⟨follow_append hfirst hrest, fun l =>
          ((makeDirectoryAt_ok hmake).2 l).trans (hspared l)⟩

theorem writeAt_ok {text? : Option String} (h : v.writeAt location text? = .ok w) :
    v.entry? location ≠ some .directory ∧ w.entry? location = some (.file text?) ∧
      ∀ l, l ≠ location → Spares v w l := by
  unfold writeAt at h
  split at h
  · cases h
  · next hnot =>
    cases h
    have hne : v.entry? location ≠ some .directory := hnot
    exact ⟨hne, entry?_insert_self (not_outermost hne), fun l hl e he => by
      rw [entry?_insert_of_ne hl, he]⟩

/-- What was written is read, and everything else is spared. A directory is never overwritten. -/
theorem write_ok {text? : Option String} (h : v.write path text? = .ok w) :
    w.locate path = .ok (locationOf path) ∧ w.entry? (locationOf path) = some (.file text?) ∧
      v.entry? (locationOf path) ≠ some .directory ∧ ∀ l, l ≠ locationOf path → Spares v w l := by
  unfold write at h
  generalize hnames : pathNames path = start at h
  obtain ⟨start, names⟩ := start
  dsimp only at h
  cases hmake : v.makeWay start names.dropLast with
  | error e =>
    simp only [bind, Except.bind, hmake] at h
    cases h
  | ok made =>
    obtain ⟨directory, u⟩ := made
    cases hfollow : u.follow directory (names.drop (names.length - 1)) with
    | error e =>
      simp only [bind, Except.bind, hmake, hfollow] at h
      cases h
    | ok location =>
      simp only [bind, Except.bind, hmake, hfollow] at h
      obtain ⟨hway, hspared⟩ := makeWay_ok hmake
      obtain ⟨hnot, hwritten, hother⟩ := writeAt_ok h
      have hlocate : u.locate path = .ok location := by
        have hall := follow_append hway hfollow
        rw [List.dropLast_eq_take, List.take_append_drop] at hall
        rw [locate, hnames]
        exact hall
      have hlocation := (locate_eq_ok_iff.1 hlocate).2.2
      subst hlocation
      refine ⟨follow_of_spared (fun l hl => hother l ?_) hlocate, hwritten, fun hdirectory => ?_,
        fun l hl => (hspared l).trans (hother l hl)⟩
      · rintro rfl
        exact hnot ((locate_eq_ok_iff.1 hlocate).1 _ hl)
      · exact hnot (hspared _ _ hdirectory)

/-- A text that was written is read. -/
theorem readText_of_write (h : v.write path (some text) = .ok w) : w.readText path = .ok text :=
  readText_eq_ok_iff.2 ⟨(write_ok h).1, (write_ok h).2.1⟩

theorem removeFile_ok (h : v.removeFile path = .ok w) :
    v.entry? (locationOf path) ≠ some .directory ∧ ∀ l, l ≠ locationOf path → Spares v w l := by
  unfold removeFile at h
  cases hlocate : v.locate path with
  | error e =>
    simp only [bind, Except.bind, hlocate] at h
    cases h
  | ok location =>
    have hlocation := (locate_eq_ok_iff.1 hlocate).2.2
    subst hlocation
    simp only [bind, Except.bind, hlocate] at h
    split at h
    · next hfile =>
      cases h
      refine ⟨by simp [hfile], fun l hl e he => ?_⟩
      simpa [entry?_eq, OrderedMap.get?_erase, hl] using he
    · cases h
    · cases h

theorem removeDirectory_ok (h : v.removeDirectory path = .ok w) :
    ∀ l, ¬ locationOf path <+: l → Spares v w l := by
  unfold removeDirectory at h
  cases hlocate : v.locate path with
  | error e =>
    simp only [bind, Except.bind, hlocate] at h
    cases h
  | ok location =>
    have hlocation := (locate_eq_ok_iff.1 hlocate).2.2
    subst hlocation
    simp only [bind, Except.bind, hlocate] at h
    split at h
    · cases h
      intro l hl e he
      have houtside : (locationOf path).isPrefixOf l = false := by
        rw [← Bool.not_eq_true, List.isPrefixOf_iff_prefix]
        exact hl
      rw [entry?_eq, OrderedMap.get?_filter fun _ => by rw [houtside]; rfl]
      exact he
    · cases h
    · cases h

/-! ## Joined paths -/

theorem splitBy_append (sep : Char → Bool) (before : List Char) {c : Char} (hc : sep c = true)
    (after : List Char) : Text.splitBy sep (before ++ c :: after) =
      Text.splitBy sep before ++ Text.splitBy sep after := by
  have hne : ∀ cs, Text.splitBy sep cs ≠ [] := by
    intro cs
    cases cs with
    | nil => exact List.cons_ne_nil _ _
    | cons d cs =>
      rw [Text.splitBy]
      split
      · exact List.cons_ne_nil _ _
      · split <;> exact List.cons_ne_nil _ _
  induction before with
  | nil =>
    obtain ⟨piece, pieces, hpieces⟩ := List.exists_cons_of_ne_nil (hne after)
    simp [Text.splitBy, hpieces, hc]
  | cons d before ih =>
    obtain ⟨piece, pieces, hpieces⟩ := List.exists_cons_of_ne_nil (hne before)
    rw [List.cons_append, Text.splitBy, ih, Text.splitBy, hpieces]
    by_cases hd : sep d = true <;> simp [hd]

theorem splitBy_eq_singleton {sep : Char → Bool} {cs : List Char} (h : ∀ c ∈ cs, sep c = false) :
    Text.splitBy sep cs = [cs] := by
  induction cs with
  | nil => rfl
  | cons c cs ih =>
    rw [Text.splitBy, ih fun d hd => h d (List.mem_cons_of_mem c hd)]
    simp [h c List.mem_cons_self]

theorem pathNames_eq (path : String) : pathNames path =
    (if path.toList.head? = some '/' then ["/"] else [],
      (Text.splitBy (· == '/') path.toList).map String.ofList) := by
  unfold pathNames isAbsolutePath
  by_cases h : path.toList.head? = some '/' <;> simp [h]

/-- A path and a name joined: the start and the names of the path, but for an empty last one, then
the name. -/
theorem pathNames_joinPath (base : String) (hname : '/' ∉ name.toList) :
    ∃ names, ((pathNames base).2 = names ∨ (pathNames base).2 = names ++ [""]) ∧
      (pathNames (joinPath base name)).1 = (pathNames base).1 ∧
      (pathNames (joinPath base name)).2 = names ++ [name] := by
  have hpieces : Text.splitBy (· == '/') name.toList = [name.toList] :=
    splitBy_eq_singleton fun c hc => by
      rw [beq_eq_false_iff_ne]
      rintro rfl
      exact hname hc
  have hrelative : ∀ cs, name.toList ≠ '/' :: cs := by
    intro cs h
    exact hname (h ▸ List.mem_cons_self)
  have hlast : String.ofList name.toList = name := String.ofList_toList
  simp only [pathNames_eq]
  rw [joinPath]
  split
  · next h => exact absurd h (hrelative _)
  split
  · next hbase =>
    rw [List.getLast?_eq_none_iff] at hbase
    refine ⟨[], .inr (by simp [hbase, Text.splitBy]), ?_, by simp [hpieces]⟩
    have hstart : name.toList.head? ≠ some '/' := by
      rw [Ne, List.head?_eq_some_iff]
      rintro ⟨cs, hcs⟩
      exact hrelative cs hcs
    rw [if_neg hstart, hbase]
    rfl
  · next hbase =>
    obtain ⟨cs, hcs⟩ := List.getLast?_eq_some_iff.1 hbase
    refine ⟨(Text.splitBy (· == '/') cs).map String.ofList, .inr ?_, ?_, ?_⟩
    · simp [hcs, splitBy_append, Text.splitBy]
    · rw [String.toList_append, hcs]
      cases cs <;> rfl
    · rw [String.toList_append, hcs, List.append_assoc, List.singleton_append,
        splitBy_append _ _ rfl, hpieces]
      simp
  · next c hc hbase =>
    obtain ⟨cs, hcs⟩ := List.getLast?_eq_some_iff.1 hbase
    refine ⟨(Text.splitBy (· == '/') base.toList).map String.ofList, .inl rfl, ?_, ?_⟩
    · rw [String.toList_append, String.toList_append, hcs]
      cases cs <;> rfl
    · have hslash : "/".toList = ['/'] := rfl
      rw [String.toList_append, String.toList_append, hslash, List.append_assoc,
        List.singleton_append, splitBy_append _ _ rfl, hpieces]
      simp

/-- A name leads on from where the path before it leads. -/
theorem locationOf_joinPath (base : String) (hname : '/' ∉ name.toList) :
    locationOf (joinPath base name) = enter (locationOf base) name := by
  obtain ⟨names, hnames, hstart, hjoined⟩ := pathNames_joinPath base hname
  have hempty : resolve (pathNames base).1 (pathNames base).2 =
      resolve (pathNames base).1 names := by
    rcases hnames with h | h
    · rw [h]
    · rw [h, resolve, List.foldl_append]
      rfl
  rw [locationOf, locationOf, hstart, hjoined, hempty, resolve, resolve, List.foldl_append]
  rfl

theorem not_up_joinPath {base : String} (hname : '/' ∉ name.toList) (hup : name ≠ "..")
    (hbase : ".." ∉ (pathNames base).2) : ".." ∉ (pathNames (joinPath base name)).2 := by
  obtain ⟨names, hnames, -, hjoined⟩ := pathNames_joinPath base hname
  rw [hjoined, List.mem_append, List.mem_singleton, not_or]
  refine ⟨fun h => hbase ?_, hup.symm⟩
  rcases hnames with hnames | hnames
  · rwa [hnames]
  · rw [hnames]
    exact List.mem_append_left _ h

/-- Without a name that leads up, a way stays on the path to where it leads. -/
theorem way_prefix (hup : ".." ∉ names) {l : Location} (hl : l ∈ way location names) :
    l <+: resolve location names := by
  have hgrows (l : Location) (names : List String) (h : ".." ∉ names) : l <+: resolve l names := by
    induction names generalizing l with
    | nil => exact List.prefix_rfl
    | cons name names ih =>
      rw [List.mem_cons, not_or] at h
      refine List.IsPrefix.trans ?_ (ih (enter l name) h.2)
      unfold enter
      split_ifs with hskip hdots
      · exact List.prefix_rfl
      · exact absurd hdots.symm h.1
      · exact List.prefix_append _ _
  induction names generalizing location with
  | nil => cases hl
  | cons name names ih =>
    rcases List.mem_cons.1 hl with rfl | hl
    · exact hgrows _ _ hup
    · exact ih (fun h => hup (List.mem_cons_of_mem _ h)) hl

end Volume
end ReactiveView
