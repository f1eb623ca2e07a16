import ReactiveView.ReactiveIndex

/-!
# What an index remembers

An index is told of reads, of nodes that are to be forgotten and of a new beginning, in any order.
What it says afterwards is said of the history of these events alone: a node is a reader of a
variable if it has read it since it was last forgotten (`ReactiveIndex.ReadSince`), and readers
stand in the order of their first reads since then (`ReactiveIndex.FirstBefore`). The main statement
is `ReactiveIndex.registered_since`.

Histories list the newest event first, so that the recursion of what is said of a history follows
the one of the run. The index and its history are related by one invariant
(`ReactiveIndex.Remembers`), which every event keeps.
-/

namespace ReactiveView
namespace ReactiveIndex

variable {ν : Type}

/-! ## Histories -/

/-- What an index is told. -/
inductive Event (ν : Type) where
  /-- A node has read a variable. -/
  | track (key : String) (node : ν)
  /-- The reads of a node are to be forgotten. -/
  | purge (node : ν)
  /-- All reads are to be forgotten. -/
  | clear

/-- What happened so far, the newest event first. -/
abbrev History (ν : Type) := List (Event ν)

variable [DecidableEq ν]

/-- Whether an event makes an index forget the reads of a node. -/
def Event.forgets (node : ν) : Event ν → Bool
  | .purge purged => node = purged
  | .clear => true
  | .track _ _ => false

/-- A node has read a variable since it was last forgotten. -/
def ReadSince (h : History ν) (key : String) (node : ν) : Prop :=
  ∃ later earlier, h = later ++ .track key node :: earlier ∧ ∀ e ∈ later, e.forgets node = false

/-- What had happened when a node read a variable for the first time since it was last forgotten, if
it has read it since then. -/
def firstRead? (key : String) (node : ν) : History ν → Option (History ν)
  | [] => none
  | .track k n :: h =>
    (firstRead? key node h).or (if key = k ∧ node = n then some h else none)
  | e :: h => if e.forgets node then none else firstRead? key node h

/-- The first read of a variable by one node came before the first read by another one. -/
def FirstBefore (h : History ν) (key : String) (a b : ν) : Prop :=
  ∃ before after, firstRead? key a h = some before ∧ firstRead? key b h = some after ∧
    before.length < after.length

/-! ## Runs -/

/-- Remove every registration of a node; whether it had any. -/
def release (index : ReactiveIndex ν) (node : ν) : Bool × ReactiveIndex ν :=
  match index.reverse.get? node with
  | none => (false, index)
  | some keys =>
    (true, ⟨keys.toList.foldl (dropReader node) index.forward, index.reverse.erase node⟩)

/-- What an event makes of an index. -/
def Event.run (index : ReactiveIndex ν) : Event ν → ReactiveIndex ν
  | .track key node => index.track key node
  | .purge node => (index.release node).2
  | .clear => .empty

/-- The index after what happened. -/
def after : History ν → ReactiveIndex ν
  | [] => .empty
  | e :: h => e.run (after h)

/-- Erasing a key that is not there changes nothing. -/
theorem erase_of_get?_eq_none {κ α : Type} [DecidableEq κ] {m : OrderedMap κ α} {k : κ}
    (h : m.get? k = none) : m.erase k = m := by
  have hk : k ∉ m.entries.map (·.1) := OrderedMap.find?_eq_none.1 h
  have hkept : m.entries.filter (fun e => decide (e.1 ≠ k)) = m.entries :=
    List.filter_eq_self.2 fun e he => decide_eq_true fun heq =>
      hk (heq ▸ List.mem_map_of_mem he)
  exact congrArg OrderedMap.mk hkept

/-- Removing all registrations tells whether there were any. -/
theorem release_eq (index : ReactiveIndex ν) (node : ν) :
    index.release node = (index.isTracked node, index.purge node) := by
  unfold release isTracked purge keysOf setAt OrderedMap.contains
  cases h : index.reverse.get? node with
  | none =>
    simp only [Option.getD_none, Option.isSome_none, OrderedSet.empty, List.foldl_nil,
      erase_of_get?_eq_none h]
  | some keys => rfl

/-! ## First reads -/

section

variable {h : History ν} {key k : String} {node n : ν}

/-- The first read came before the present. -/
theorem length_lt_of_firstRead? {earlier : History ν}
    (hfirst : firstRead? key node h = some earlier) : earlier.length < h.length := by
  induction h with
  | nil => cases hfirst
  | cons e h ih =>
    cases e with
    | track k n =>
      rw [firstRead?] at hfirst
      cases hrest : firstRead? key node h with
      | some found =>
        rw [hrest, Option.some_or] at hfirst
        exact Nat.lt_succ_of_lt (ih (hrest.trans hfirst))
      | none =>
        rw [hrest, Option.none_or] at hfirst
        split at hfirst
        · obtain rfl := Option.some.inj hfirst
          exact Nat.lt_succ_self _
        · cases hfirst
    | purge | clear =>
      rw [firstRead?] at hfirst
      · split at hfirst
        · cases hfirst
        · exact Nat.lt_succ_of_lt (ih hfirst)
      · exact nofun

/-- A read of another variable or by another node is no first read. -/
theorem firstRead?_track_of_ne (hne : ¬(key = k ∧ node = n)) :
    firstRead? key node (.track k n :: h) = firstRead? key node h := by
  rw [firstRead?, if_neg hne, Option.or_none]

/-- A read is the first unless there was one. -/
theorem firstRead?_track_self :
    firstRead? key node (.track key node :: h) = some ((firstRead? key node h).getD h) := by
  rw [firstRead?, if_pos ⟨rfl, rfl⟩]
  cases firstRead? key node h <;> rfl

/-- A node that is forgotten has read nothing since. -/
theorem firstRead?_purge :
    firstRead? key node (.purge n :: h) = if node = n then none else firstRead? key node h := by
  rw [firstRead?]
  · simp only [Event.forgets, decide_eq_true_eq]
  · exact nofun

/-- There is a first read exactly if there is a read. -/
theorem isSome_firstRead? : (firstRead? key node h).isSome = true ↔ ReadSince h key node := by
  induction h with
  | nil =>
    refine ⟨nofun, fun ⟨later, earlier, heq, _⟩ => ?_⟩
    exact absurd heq.symm (List.append_ne_nil_of_right_ne_nil later (List.cons_ne_nil _ earlier))
  | cons e h ih =>
    -- a read that came before the newest event counts unless that event forgets it
    have hsince : ReadSince (e :: h) key node ↔
        e = .track key node ∨ e.forgets node = false ∧ ReadSince h key node := by
      constructor
      · rintro ⟨later, earlier, heq, hlater⟩
        cases later with
        | nil => exact .inl (List.cons.inj heq).1
        | cons e' later =>
          obtain ⟨rfl, rfl⟩ := List.cons.inj heq
          obtain ⟨he, hlater⟩ := List.forall_mem_cons.1 hlater
          exact .inr ⟨he, later, earlier, rfl, hlater⟩
      · rintro (rfl | ⟨he, later, earlier, rfl, hlater⟩)
        · exact ⟨[], h, rfl, nofun⟩
        · exact ⟨e :: later, earlier, rfl, List.forall_mem_cons.2 ⟨he, hlater⟩⟩
    rw [hsince, ← ih]
    cases e with
    | track k n =>
      by_cases hread : key = k ∧ node = n
      · obtain ⟨rfl, rfl⟩ := hread
        simp [firstRead?_track_self]
      · have hother : Event.track k n ≠ .track key node := fun heq => by
          obtain ⟨rfl, rfl⟩ := Event.track.inj heq
          exact hread ⟨rfl, rfl⟩
        simp [firstRead?_track_of_ne hread, hother, Event.forgets]
    | purge n =>
      rw [firstRead?_purge]
      by_cases hn : node = n
      · simp [hn, Event.forgets]
      · simp [hn, Event.forgets]
    | clear => simp [firstRead?, Event.forgets]

/-- The order of first reads stays when what happens leaves these reads the first. -/
theorem FirstBefore.congr {e : Event ν} {a b : ν}
    (ha : firstRead? key a (e :: h) = firstRead? key a h)
    (hb : firstRead? key b (e :: h) = firstRead? key b h) (hab : FirstBefore h key a b) :
    FirstBefore (e :: h) key a b := by
  obtain ⟨before, after, hbefore, hafter, hlt⟩ := hab
  exact ⟨before, after, ha.trans hbefore, hb.trans hafter, hlt⟩

end

/-! ## Readers in their order -/

section

variable (index : ReactiveIndex ν) (key k : String) (node n : ν)

/-- A read adds its reader to those of its variable, at the end, unless it is there already. -/
theorem dependents_track : (index.track key node).dependents k =
    if isTrackedKey key = true ∧ k = key ∧ node ∉ index.dependents key then
      index.dependents k ++ [node]
    else index.dependents k := by
  unfold track dependents
  by_cases hkey : isTrackedKey key = true
  · rw [if_pos hkey]
    dsimp only
    rw [setAt_insert]
    by_cases hk : k = key
    · subst hk
      rw [if_pos rfl]
      unfold OrderedSet.insert OrderedSet.contains
      by_cases hmem : node ∈ (setAt index.forward k).toList
      · rw [if_pos (List.contains_iff_mem.2 hmem), if_neg fun h => h.2.2 hmem]
      · rw [if_neg fun h => hmem (List.contains_iff_mem.1 h), if_pos ⟨hkey, rfl, hmem⟩]
    · rw [if_neg hk, if_neg fun h => hk h.2.1]
  · rw [if_neg hkey, if_neg fun h => hkey h.1]

/-- Dropping a reader leaves the order of the others. -/
theorem toList_dropReader (forward : OrderedMap String (OrderedSet ν)) :
    (setAt (dropReader node forward key) k).toList =
      if k = key then (setAt forward k).toList.filter (· ≠ node) else (setAt forward k).toList := by
  unfold dropReader
  cases hget : forward.get? key with
  | none =>
    dsimp only
    split
    · rename_i hk
      rw [hk, setAt, hget]
      rfl
    · rfl
  | some readers =>
    have hreaders : setAt forward key = readers := by
      rw [setAt, hget]
      rfl
    dsimp only
    split
    · rename_i hempty
      rw [setAt_erase]
      split
      · rename_i hk
        rw [hk, hreaders]
        exact (List.isEmpty_iff.1 hempty).symm
      · rfl
    · rw [setAt_insert]
      split
      · rename_i hk
        rw [hk, hreaders]
        rfl
      · rfl

/-- Dropping a reader from several variables leaves the order of the others. -/
theorem toList_foldl_dropReader (keys : List String) (forward : OrderedMap String (OrderedSet ν)) :
    (setAt (keys.foldl (dropReader node) forward) k).toList =
      if k ∈ keys then (setAt forward k).toList.filter (· ≠ node) else (setAt forward k).toList := by
  induction keys generalizing forward with
  | nil => rfl
  | cons key keys ih =>
    rw [List.foldl_cons, ih, toList_dropReader]
    by_cases hk : k = key
    · simp [hk, List.filter_filter]
    · simp [hk]

variable {index}

/-- What is purged goes from the readers of each variable, and the others stay in their order. -/
theorem Coherent.dependents_purge (h : index.Coherent) :
    (index.purge node).dependents k = (index.dependents k).filter (· ≠ node) := by
  have hkept := toList_foldl_dropReader k node (index.keysOf node) index.forward
  refine Eq.trans hkept ?_
  split
  · rfl
  · rename_i hk
    have hout : node ∉ index.dependents k := fun hmem => hk ((h.dual k node).1 hmem)
    refine (List.filter_eq_self.2 fun a ha => decide_eq_true ?_).symm
    rintro rfl
    exact hout ha

omit [DecidableEq ν] in
/-- The number of readers is that of the nodes that are mentioned. -/
theorem size_eq_length_readers (index : ReactiveIndex ν) : index.size = index.readers.length :=
  (List.length_map _).symm

/-- The nodes that are mentioned are those that have read a variable. -/
theorem Coherent.mem_readers (h : index.Coherent) : n ∈ index.readers ↔ index.keysOf n ≠ [] := by
  refine ⟨fun hmem hkeys => h.not_mem_readers n hkeys hmem, fun hkeys => ?_⟩
  refine (OrderedMap.contains_iff index.reverse n).1 ?_
  unfold OrderedMap.contains
  cases hget : index.reverse.get? n with
  | some s => rfl
  | none =>
    refine absurd ?_ hkeys
    unfold keysOf setAt
    rw [hget]
    rfl

end

/-! ## The invariant -/

/-- An index is as its history says. -/
structure Remembers (h : History ν) (index : ReactiveIndex ν) : Prop where
  /-- The two directions say the same. -/
  coherent : index.Coherent
  /-- A node is a reader of a variable that is tracked if it has read it. -/
  reads : ∀ key node, key ∈ index.keysOf node ↔
    isTrackedKey key = true ∧ (firstRead? key node h).isSome = true
  /-- Readers stand in the order of their first reads. -/
  order : ∀ key, (index.dependents key).Pairwise (FirstBefore h key)
  /-- No reader is mentioned twice. -/
  distinct : index.reverse.Distinct

/-- Nothing happened. -/
theorem remembers_nil : Remembers [] (.empty : ReactiveIndex ν) where
  coherent := coherent_empty
  reads _ _ := ⟨nofun, fun h => absurd h.2 Bool.false_ne_true⟩
  order _ := List.Pairwise.nil
  distinct := List.nodup_nil

section

variable {h : History ν} {index : ReactiveIndex ν}

/-- A reader is one that has a first read. -/
theorem Remembers.exists_firstRead (hi : Remembers h index) {key : String} {node : ν}
    (hnode : node ∈ index.dependents key) : ∃ earlier, firstRead? key node h = some earlier :=
  Option.isSome_iff_exists.1
    ((hi.reads key node).1 ((hi.coherent.dual key node).1 hnode)).2

/-- A node has read a variable. -/
theorem Remembers.track (hi : Remembers h index) (key : String) (node : ν) :
    Remembers (.track key node :: h) (index.track key node) where
  coherent := hi.coherent.track key node
  reads k n := by
    rw [mem_keysOf_track, hi.reads]
    by_cases hread : k = key ∧ n = node
    · obtain ⟨rfl, rfl⟩ := hread
      simp only [firstRead?_track_self, Option.isSome_some, and_true]
      exact ⟨fun hor => hor.elim And.left id, .inr⟩
    · rw [firstRead?_track_of_ne hread]
      exact ⟨fun hor => hor.resolve_right fun ⟨_, hn, hk⟩ => hread ⟨hk, hn⟩, .inl⟩
  order k := by
    -- whoever was a reader of a variable has the same first read as before
    have hsame {a : ν} (ha : a ∈ index.dependents k) :
        firstRead? k a (.track key node :: h) = firstRead? k a h := by
      obtain ⟨earlier, hearlier⟩ := hi.exists_firstRead ha
      rw [firstRead?, hearlier, Option.some_or]
    have hkept : (index.dependents k).Pairwise (FirstBefore (.track key node :: h) k) :=
      (hi.order k).imp_of_mem fun ha hb hab => hab.congr (hsame ha) (hsame hb)
    rw [dependents_track]
    split
    · rename_i hnew
      obtain ⟨htracked, rfl, hout⟩ := hnew
      have hnone : firstRead? k node h = none := by
        rw [← Option.not_isSome_iff_eq_none]
        exact fun hsome => hout ((hi.coherent.dual k node).2 ((hi.reads k node).2 ⟨htracked, hsome⟩))
      have hfirst : firstRead? k node (.track k node :: h) = some h := by
        rw [firstRead?_track_self, hnone, Option.getD_none]
      refine List.pairwise_append.2 ⟨hkept, List.pairwise_singleton _ _, fun a ha b hb => ?_⟩
      obtain rfl := List.mem_singleton.1 hb
      obtain ⟨earlier, hearlier⟩ := hi.exists_firstRead ha
      exact ⟨earlier, h, (hsame ha).trans hearlier, hfirst, length_lt_of_firstRead? hearlier⟩
    · exact hkept
  distinct := by
    unfold ReactiveIndex.track
    split
    · exact hi.distinct.insert _ _
    · exact hi.distinct

/-- A node is forgotten. -/
theorem Remembers.purge (hi : Remembers h index) (node : ν) :
    Remembers (.purge node :: h) (index.purge node) where
  coherent := hi.coherent.purge node
  reads k n := by
    rw [mem_keysOf_purge, hi.reads, firstRead?_purge]
    by_cases hn : n = node
    · simp [hn]
    · simp [hn]
  order k := by
    rw [hi.coherent.dependents_purge]
    refine ((hi.order k).filter _).imp_of_mem fun {a b} ha hb hab => ?_
    have hsame {c : ν} (hc : c ∈ (index.dependents k).filter (· ≠ node)) :
        firstRead? k c (.purge node :: h) = firstRead? k c h := by
      rw [firstRead?_purge, if_neg (of_decide_eq_true (List.mem_filter.1 hc).2)]
    exact hab.congr (hsame ha) (hsame hb)
  distinct := hi.distinct.erase node

/-- Every event keeps the invariant. -/
theorem Remembers.run (hi : Remembers h index) (e : Event ν) : Remembers (e :: h) (e.run index) := by
  cases e with
  | track key node => exact hi.track key node
  | purge node =>
    rw [Event.run, release_eq]
    exact hi.purge node
  | clear => exact { remembers_nil with }

end

/-- The index after a history is as the history says. -/
theorem remembers_after (h : History ν) : Remembers h (after h) := by
  induction h with
  | nil => exact remembers_nil
  | cons e h ih => exact ih.run e

/-! ## What an index says -/

/-- Whatever an index was told: a node is among the readers of a variable exactly if the variable is
among those of the node, which is so exactly if the node has read it since it was last forgotten and
the variable is no private one. No variable is stored without a reader and no reader without a
variable. The readers of a variable are listed once each, in the order of their first reads since
they were last forgotten. The size is the number of the nodes that have read a variable. Forgetting
a node tells whether it had read one, takes it from the readers of each variable, whose others keep
their order, and leaves the variables of every other node. -/
theorem registered_since (h : History ν) :
    (∀ key node, (node ∈ (after h).dependents key ↔ key ∈ (after h).keysOf node) ∧
      (key ∈ (after h).keysOf node ↔ ReadSince h key node ∧ key.startsWith "_" = false)) ∧
    ((∀ key readers, (after h).forward.get? key = some readers → readers.toList ≠ []) ∧
      ∀ node keys, (after h).reverse.get? node = some keys → keys.toList ≠ []) ∧
    (∀ key, ((after h).dependents key).Nodup ∧
      ((after h).dependents key).Pairwise (FirstBefore h key)) ∧
    ((after h).size = (after h).readers.length ∧ (after h).readers.Nodup ∧
      ∀ node, node ∈ (after h).readers ↔ (after h).keysOf node ≠ []) ∧
    ∀ node, (((after h).release node).1 = true ↔ (after h).keysOf node ≠ []) ∧
      (∀ key, ((after h).release node).2.dependents key =
        ((after h).dependents key).filter (· ≠ node)) ∧
      ∀ other, ((after h).release node).2.keysOf other =
        if other = node then [] else (after h).keysOf other := by
  have hi := remembers_after h
  have hc := hi.coherent
  refine ⟨fun key node => ⟨hc.dual key node, ?_⟩, ⟨@hc.forward, @hc.reverse⟩,
    fun key => ⟨?_, hi.order key⟩, ⟨size_eq_length_readers _, hi.distinct, hc.mem_readers⟩,
    fun node => ?_⟩
  · rw [hi.reads, isSome_firstRead?, and_comm, isTrackedKey, Bool.not_eq_true']
  · -- nothing comes before itself
    refine (hi.order key).imp fun {a b} hab heq => ?_
    obtain ⟨before, after, hbefore, hafter, hlt⟩ := hab
    obtain rfl : before = after := by
      rw [heq, hafter] at hbefore
      exact (Option.some.inj hbefore).symm
    exact Nat.lt_irrefl _ hlt
  · rw [release_eq]
    refine ⟨?_, fun key => hc.dependents_purge key node, fun other => ?_⟩
    · rw [← hc.mem_readers]
      exact OrderedMap.contains_iff _ node
    · unfold purge keysOf
      dsimp only
      rw [setAt_erase]
      split <;> rfl

/-- The reader that came first goes to the end when it is forgotten and reads again. -/
example : (after [.track "a" 1, .purge 1, .track "_b" 2, .track "a" 2, .track "a" (1 : Nat)]).dependents
    "a" = [2, 1] := by decide +kernel

end ReactiveIndex
end ReactiveView
