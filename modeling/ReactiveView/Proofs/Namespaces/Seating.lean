import ReactiveView.Proofs.Rendering
import ReactiveView.Proofs.Structure.Shape

/-!
# Where nodes stand, and in which namespace

The namespace of an element is settled when it is built, from the namespace at the cursor, which was
handed down from where the building began. It is right if it is the one that a walk from the element
upwards would find: that of the nearest element, or that of documents at the end of the tree.

What such walks depend on is the seat of each node (`Arena.seating`): its parent and, for an
element, its tag and its namespace. Seats do not change. They come and go with their nodes, and
since the identity of a node is never given away again, a walk that can be done later from a node
that was there before could be done before, with the same outcome (`Seating.Becomes.walk`).

So an invariant can tell of the future. `Seating.Nests` says of the elements that are there that
they are in the right namespace, and of the places at which something is still to be built that the
namespace which is named for them is the right one, if there is a right one: a place may be cut off
from the tree while something is built at it. A new node at such a place keeps the invariant, and
what is to be built under it is at such a place too (`Seating.Nests.grow`).
-/

namespace ReactiveView

/-! ## Seats -/

/-- The tag and the namespace of an element. -/
def RenderKind.markup? (kind : RenderKind) : Option (String × Namespace) :=
  kind.element?.map fun data => (data.tag, data.ns)

/-- What namespaces depend on at a node. -/
structure Seat where
  /-- The parent. -/
  parent : Option NodeId
  /-- The tag and the namespace, of an element. -/
  markup : Option (String × Namespace)

/-- What is built in a namespace is an element of the namespace of its tag below it, or no element.
-/
def Namespace.Admits (ns : Namespace) (markup : Option (String × Namespace)) : Prop :=
  ∀ tag m, markup = some (tag, m) → m = below ns tag

/-- The namespace of what is built under a node that is built in a namespace: that of the element,
if it is one. -/
def Namespace.inside (ns : Namespace) (markup : Option (String × Namespace)) : Namespace :=
  (markup.map (·.2)).getD ns

/-- What is no element may be built in any namespace. -/
theorem Namespace.admits_none (ns : Namespace) : ns.Admits none := fun _ _ h => by cases h

/-- The seats of nodes that are there, and which nodes are or were there. -/
structure Seating where
  /-- The seat of a node. -/
  seat? : NodeId → Option Seat
  /-- Whether a node is or was there. -/
  known : NodeId → Prop
  /-- A node that is there is known. -/
  known_of_seat : ∀ {id s}, seat? id = some s → known id

/-- Places at which something is to be built: a node, and the namespace that is named for what is
built under it. -/
abbrev Openings := NodeId → Namespace → Prop

/-- Places, and another one. -/
def Openings.add (C : Openings) (id : NodeId) (ns : Namespace) : Openings :=
  fun p m => (p = id ∧ m = ns) ∨ C p m

namespace Seating

/-- A walk upwards over nodes that are there, to the nearest element or to the end of the tree: the
nodes it comes by, and the namespace that it finds. -/
inductive Walk (S : Seating) : List NodeId → Option NodeId → Namespace → Prop
  /-- At the end of the tree there are documents. -/
  | top : Walk S [] none .html
  /-- At an element the walk ends. -/
  | element {id : NodeId} {parent : Option NodeId} {tag : String} {ns : Namespace}
      (hs : S.seat? id = some ⟨parent, some (tag, ns)⟩) : Walk S [id] (some id) ns
  /-- From any other node it goes on. -/
  | through {id : NodeId} {parent : Option NodeId} {path : List NodeId} {ns : Namespace}
      (hs : S.seat? id = some ⟨parent, none⟩) (h : Walk S path parent ns) :
      Walk S (id :: path) (some id) ns

/-- Elements are in the right namespace, and places that are open are named rightly, as far as they
belong to the tree. -/
structure Nests (S : Seating) (C : Openings) : Prop where
  /-- The parent of a node is or was there. -/
  parent : ∀ {id s p}, S.seat? id = some s → s.parent = some p → S.known p
  /-- An element is in the namespace of its tag below the one that a walk from its parent finds. -/
  element : ∀ {id parent tag ns path m}, S.seat? id = some ⟨parent, some (tag, ns)⟩ →
    S.Walk path parent m → ns = Namespace.below m tag
  /-- A place that is open is at a node that is or was there, and named by what a walk finds. -/
  opening : ∀ {p ns}, C p ns → S.known p ∧ ∀ {path m}, S.Walk path (some p) m → ns = m

/-- What comes of a seating: what is known stays known, and what was known stands where it stood, if
it is still there. -/
structure Becomes (S S' : Seating) : Prop where
  /-- What is known stays known. -/
  known : ∀ {id}, S.known id → S'.known id
  /-- What was known stands where it stood. -/
  seat : ∀ {id s}, S.known id → S'.seat? id = some s → S.seat? id = some s

variable {S S' : Seating} {C C' : Openings} {path path' : List NodeId} {start : Option NodeId}
  {ns m m' : Namespace}

/-! ## Walks -/

/-- There is one walk from a node. -/
theorem Walk.unique (h : S.Walk path start m) (h' : S.Walk path' start m') :
    path = path' ∧ m = m' := by
  induction h generalizing path' m' with
  | top =>
    obtain _ | _ := h'
    exact ⟨rfl, rfl⟩
  | element hs =>
    cases h' with
    | element hs' =>
      rw [hs] at hs'
      cases hs'
      exact ⟨rfl, rfl⟩
    | through hs' =>
      rw [hs] at hs'
      cases hs'
  | through hs _ ih =>
    cases h' with
    | element hs' =>
      rw [hs] at hs'
      cases hs'
    | through hs' h' =>
      rw [hs] at hs'
      cases hs'
      obtain ⟨rfl, rfl⟩ := ih h'
      exact ⟨rfl, rfl⟩

/-- The nodes that a walk comes by are there, and the walk goes on from each of them as it would
start there. -/
theorem Walk.at_mem (h : S.Walk path start m) {x : NodeId} (hx : x ∈ path) :
    (∃ s, S.seat? x = some s) ∧ ∃ rest, S.Walk (x :: rest) (some x) m ∧ (x :: rest) <:+ path := by
  induction h with
  | top => cases hx
  | element hs =>
    obtain rfl := List.mem_singleton.1 hx
    exact ⟨⟨_, hs⟩, [], .element hs, List.suffix_rfl⟩
  | @through id _ path _ hs h ih =>
    rcases List.mem_cons.1 hx with rfl | hx
    · exact ⟨⟨_, hs⟩, path, .through hs h, List.suffix_rfl⟩
    · obtain ⟨hseat, rest, hwalk, hsuffix⟩ := ih hx
      exact ⟨hseat, rest, hwalk, hsuffix.trans (List.suffix_cons id path)⟩

/-- A walk comes by no node twice. -/
theorem Walk.nodup (h : S.Walk path start m) : path.Nodup := by
  induction h with
  | top => exact List.nodup_nil
  | element => exact List.nodup_singleton _
  | @through id _ path _ hs h ih =>
    refine List.nodup_cons.2 ⟨fun hmem => ?_, ih⟩
    -- a walk that came back would go on forever
    obtain ⟨-, rest, hwalk, hsuffix⟩ := h.at_mem hmem
    obtain ⟨hpath, -⟩ := hwalk.unique (.through hs h)
    have hlength := hsuffix.length_le
    rw [hpath, List.length_cons] at hlength
    exact Nat.not_succ_le_self _ hlength

/-! ## Changes -/

/-- A walk from a node that was known could be done before. -/
theorem Becomes.walk (hb : S.Becomes S')
    (hparent : ∀ {id s p}, S.seat? id = some s → s.parent = some p → S.known p)
    (h : S'.Walk path start m) (hstart : ∀ p, start = some p → S.known p) :
    S.Walk path start m := by
  induction h with
  | top => exact .top
  | element hs => exact .element (hb.seat (hstart _ rfl) hs)
  | through hs _ ih =>
    have hold := hb.seat (hstart _ rfl) hs
    refine .through hold (ih fun p hp => hparent hold hp)

namespace Nests

/-- The invariant for fewer places. -/
theorem mono (h : S.Nests C) (hC : ∀ p ns, C' p ns → C p ns) : S.Nests C' :=
  ⟨h.parent, h.element, fun hp => h.opening (hC _ _ hp)⟩

/-- Another place that is named rightly. -/
theorem add (h : S.Nests C) {id : NodeId} (hknown : S.known id)
    (hns : ∀ {path m}, S.Walk path (some id) m → ns = m) : S.Nests (C.add id ns) where
  parent := h.parent
  element := h.element
  opening := by
    rintro p m (⟨rfl, rfl⟩ | hp)
    · exact ⟨hknown, hns⟩
    · exact h.opening hp

/-- A place that was open is open after a change. -/
theorem still_open (h : S.Nests C) (hb : S.Becomes S') {p : NodeId} (hp : C p ns) :
    S'.known p ∧ ∀ {path m}, S'.Walk path (some p) m → ns = m := by
  obtain ⟨hknown, hns⟩ := h.opening hp
  refine ⟨hb.known hknown, fun hwalk => hns (hb.walk h.parent hwalk ?_)⟩
  rintro _ ⟨⟩
  exact hknown

/-- A change that brings no node in. -/
theorem shrink (h : S.Nests C) (hb : S.Becomes S')
    (hold : ∀ {id s}, S'.seat? id = some s → S.seat? id = some s) : S'.Nests C where
  parent hs hp := hb.known (h.parent (hold hs) hp)
  element hs hwalk :=
    h.element (hold hs) (hb.walk h.parent hwalk fun _ hp => h.parent (hold hs) hp)
  opening hp := h.still_open hb hp

/-- A new node at the end of the tree or at an open place. What is built under it is at an open
place too. -/
theorem grow (h : S.Nests C) (hb : S.Becomes S') {id : NodeId} {s : Seat}
    (hnew : S'.seat? id = some s)
    (hold : ∀ {id' s'}, S'.seat? id' = some s' → id' ≠ id → S.seat? id' = some s')
    (hplace : ∀ p, s.parent = some p → C p ns) (htop : s.parent = none → ns = .html)
    (hmarkup : ns.Admits s.markup) :
    S'.Nests (C.add id (ns.inside s.markup)) := by
  have hparent : ∀ p, s.parent = some p → S.known p := fun p hp => (h.opening (hplace p hp)).1
  -- a walk from the new node's parent finds the namespace that is named
  have hfound {path : List NodeId} {m : Namespace} (hwalk : S'.Walk path s.parent m) : ns = m := by
    cases hp : s.parent with
    | none =>
      rw [hp] at hwalk
      obtain _ | _ := hwalk
      exact htop hp
    | some p =>
      have hbefore := hb.walk h.parent hwalk hparent
      rw [hp] at hbefore
      exact (h.opening (hplace p hp)).2 hbefore
  refine add ⟨fun {id' s' p} hs hp => ?_, fun {id' parent tag m' path m} hs hwalk => ?_,
    fun hp => h.still_open hb hp⟩ (S'.known_of_seat hnew) fun hwalk => ?_
  · by_cases hid : id' = id
    · rw [hid, hnew, Option.some.injEq] at hs
      exact hb.known (hparent p (hs ▸ hp))
    · exact hb.known (h.parent (hold hs hid) hp)
  · by_cases hid : id' = id
    · rw [hid, hnew, Option.some.injEq] at hs
      subst hs
      rw [← hfound hwalk]
      exact hmarkup tag m' rfl
    · exact h.element (hold hs hid)
        (hb.walk h.parent hwalk fun _ hp => h.parent (hold hs hid) hp)
  · obtain ⟨parent, markup⟩ := s
    cases hwalk with
    | element hs =>
      rw [hnew] at hs
      cases hs
      rfl
    | through hs hwalk =>
      rw [hnew] at hs
      cases hs
      exact hfound hwalk

end Nests
end Seating

/-! ## Engines -/

/-- The seat of a node. -/
def RenderNode.seat (n : RenderNode) : Seat := ⟨n.parent, n.kind.markup?⟩

/-- The seats of nodes. A node that is not there any more stays known. -/
def Arena.seating (a : Arena RenderNode) : Seating where
  seat? id := (a.get? id).map RenderNode.seat
  known id := a.contains id = true ∨ a.Spent id
  known_of_seat h := by
    obtain ⟨n, hn, -⟩ := Option.map_eq_some_iff.1 h
    exact .inl (Option.isSome_iff_exists.2 ⟨n, hn⟩)

/-- The tag and the namespace are of the make of an element. -/
theorem RenderKind.markup?_of_fixed {kind kind' : RenderKind}
    (h : kind'.picture.fixed = kind.picture.fixed) : kind'.markup? = kind.markup? := by
  let markup : Picture → Option (String × Namespace)
    | .element tag ns _ _ => some (tag, ns)
    | _ => none
  have hmarkup (kind : RenderKind) : kind.markup? = markup kind.picture.fixed := by
    cases kind <;> rfl
  rw [hmarkup, hmarkup, h]

/-- A node that stays keeps its seat. -/
theorem RenderNode.Fixed.seat {n n' : RenderNode} (h : n.Fixed n') : n'.seat = n.seat := by
  unfold RenderNode.seat
  rw [h.parent, RenderKind.markup?_of_fixed h.picture]

/-- A skeleton shows the seat. -/
theorem RenderNode.seat_skeleton (n : RenderNode) : n.skeleton.seat = n.seat := by
  have hmarkup (kind : RenderKind) : kind.skeleton.markup? = kind.markup? := by
    cases kind <;> rfl
  exact congrArg (Seat.mk n.parent) (hmarkup n.kind)

namespace Arena

variable {a : Arena RenderNode} {C : Openings} {id : NodeId} {n : RenderNode}

/-- The seat of a node that is there. -/
theorem seating_of_get? (h : a.get? id = some n) : a.seating.seat? id = some n.seat :=
  congrArg (Option.map RenderNode.seat) h

/-- A change of a node that keeps its seat. -/
theorem nests_modify {f : RenderNode → RenderNode}
    (hf : ∀ n, a.get? id = some n → (f n).seat = n.seat) (h : a.seating.Nests C) :
    (a.modify id f).seating.Nests C := by
  have hseat (x : NodeId) : (a.modify id f).seating.seat? x = a.seating.seat? x := by
    change ((a.modify id f).get? x).map RenderNode.seat = (a.get? x).map RenderNode.seat
    rw [get?_modify]
    split
    · rename_i hx
      rw [hx, Option.map_map]
      cases hn : a.get? id with
      | none => rfl
      | some n => exact congrArg some (hf n hn)
    · rfl
  have hold {x : NodeId} {s : Seat} (hs : (a.modify id f).seating.seat? x = some s) :
      a.seating.seat? x = some s := (hseat x).symm.trans hs
  refine h.shrink ⟨fun {x} hx => ?_, fun _ hs => hold hs⟩ hold
  rcases hx with hlive | hspent
  · refine .inl ?_
    rwa [contains_modify]
  · exact .inr (hspent.modify id f)

/-- A node that goes. -/
theorem nests_remove (hvalid : a.Valid) (h : a.seating.Nests C) (id : NodeId) :
    (a.remove id).2.seating.Nests C := by
  have hold {x : NodeId} {s : Seat} (hs : (a.remove id).2.seating.seat? x = some s) :
      a.seating.seat? x = some s := by
    change ((a.remove id).2.get? x).map RenderNode.seat = some s at hs
    rw [get?_remove] at hs
    split at hs
    · cases hs
    · exact hs
  refine h.shrink ⟨fun {x} hx => ?_, fun _ hs => hold hs⟩ hold
  rcases hx with hlive | hspent
  · obtain ⟨n, hn⟩ := Option.isSome_iff_exists.1 hlive
    by_cases hx : x = id
    · rw [hx] at hn ⊢
      exact .inr (spent_remove hvalid hn)
    · refine .inl (Option.isSome_iff_exists.2 ⟨n, ?_⟩)
      rw [get?_remove, if_neg hx, hn]
  · exact .inr (hspent.remove hvalid id)

/-- A new node at the end of the tree or at an open place. -/
theorem nests_insert (hvalid : a.Valid) (hroom : a.Roomy) (h : a.seating.Nests C) {ns : Namespace}
    (hplace : ∀ p, n.parent = some p → C p ns) (htop : n.parent = none → ns = .html)
    (hmarkup : ns.Admits n.kind.markup?) :
    (a.insert n).2.seating.Nests (C.add (a.insert n).1 (ns.inside n.kind.markup?)) := by
  have hold {x : NodeId} {s : Seat} (hs : (a.insert n).2.seating.seat? x = some s)
      (hx : x ≠ (a.insert n).1) : a.seating.seat? x = some s := by
    change ((a.insert n).2.get? x).map RenderNode.seat = some s at hs
    rwa [get?_insert hvalid hroom, if_neg hx] at hs
  refine h.grow ⟨fun {x} hx => ?_, fun {x _} hx hs => hold hs ?_⟩
    (seating_of_get? (get?_insert_self hvalid hroom n)) hold hplace htop hmarkup
  · rcases hx with hlive | hspent
    · obtain ⟨m, hm⟩ := Option.isSome_iff_exists.1 hlive
      exact .inl (Option.isSome_iff_exists.2 ⟨m, get?_insert_of_some hvalid hm n⟩)
    · exact .inr (hspent.insert hvalid n)
  · -- the identity of a new node was not known
    rintro rfl
    rcases hx with hlive | hspent
    · obtain ⟨m, hm⟩ := Option.isSome_iff_exists.1 hlive
      rw [get?_insert_new hvalid hroom] at hm
      cases hm
    · exact not_spent_insert hvalid hroom n hspent

end Arena

namespace Engine

/-- Elements are in the right namespace, and places that are open are named rightly, as long as the
slots suffice. -/
def Nests (C : Openings) (e : Engine) : Prop :=
  e.nodes.Valid ∧ (e.nodes.Roomy → e.nodes.seating.Nests C)

variable {e : Engine} {C C' : Openings}

/-- The invariant for fewer places. -/
theorem Nests.mono (h : e.Nests C) (hC : ∀ p ns, C' p ns → C p ns) : e.Nests C' :=
  ⟨h.1, fun hroom => (h.2 hroom).mono hC⟩

/-- The invariant without the last place. -/
theorem Nests.of_add {id : NodeId} {ns : Namespace} (h : e.Nests (C.add id ns)) : e.Nests C :=
  h.mono fun _ _ => .inr

/-- Changes of a node that keep its seat keep the invariant. -/
theorem nests_modifyNode {id : NodeId} {f : RenderNode → RenderNode}
    (hf : ∀ n, e.node? id = some n → (f n).seat = n.seat) (h : e.Nests C) :
    (e.modifyNode id f).Nests C :=
  ⟨h.1.modify id f, fun hroom => Arena.nests_modify hf (h.2 ((Arena.roomy_modify id f).1 hroom))⟩

/-- Evaluation keeps the invariant. -/
theorem nests_stable (C : Openings) : EvaluationStable (Nests C) where
  outside he hnodes _ _ _ := by
    unfold Nests at he ⊢
    rwa [hnodes]
  node hf he := nests_modifyNode (fun n hn => by
    rw [← RenderNode.seat_skeleton, hf n hn, RenderNode.seat_skeleton]) he
  report {e id} he := by
    unfold report
    split
    · exact he
    · exact he

/-- Removal keeps the invariant. -/
theorem nests_removal (C : Openings) : RemovalClosed (Nests C) where
  quiet _ _ hf he := nests_modifyNode (fun n hn => (hf n hn).drawn.fixed.seat) he
  drop id he := keeps_drop (fun hf he => nests_modifyNode (fun n hn => (hf n hn).fixed.seat) he)
    (fun {_ id _} _ he => ⟨he.1.remove id, fun hroom =>
      Arena.nests_remove he.1 (he.2 ((Arena.roomy_remove id).1 hroom)) id⟩) id he

/-- A new node at the end of the tree or at an open place keeps the invariant, and what is built
under it is at an open place too. -/
theorem nests_insert {n : RenderNode} {ns : Namespace} (hplace : ∀ p, n.parent = some p → C p ns)
    (htop : n.parent = none → ns = .html)
    (hmarkup : ns.Admits n.kind.markup?)
    (h : e.Nests C) :
    ({ e with nodes := (e.nodes.insert n).2 } : Engine).Nests
      (C.add (e.nodes.insert n).1 (ns.inside n.kind.markup?)) :=
  ⟨h.1.insert n, fun hroom =>
    Arena.nests_insert h.1 hroom.of_insert (h.2 hroom.of_insert) hplace htop hmarkup⟩

/-! ## The namespace at a node -/

/-- A walk finds the namespace that the ancestors of a node show, if enough of them are looked at.
-/
theorem findSome?_ancestorsIn_of_walk {path : List NodeId} {start : Option NodeId} {m : Namespace}
    (h : e.nodes.seating.Walk path start m) : ∀ {id length}, start = some id →
      path.length ≤ length + 1 →
      ((id :: e.ancestorsIn length id).findSome? fun a => (e.element? a).map (·.ns)).getD .html =
        m := by
  -- what the walk sees of a node is what the engine does
  have hseen {id : NodeId} {parent : Option NodeId} {markup : Option (String × Namespace)}
      (hs : e.nodes.seating.seat? id = some ⟨parent, markup⟩) :
      (e.node? id).bind (·.parent) = parent ∧ (e.element? id).map (·.ns) = markup.map (·.2) := by
    obtain ⟨n, hn, hseat⟩ := Option.map_eq_some_iff.1 hs
    obtain ⟨rfl, rfl⟩ := Seat.mk.inj hseat
    have hn : e.node? id = some n := hn
    rw [element?, hn, RenderKind.markup?, Option.map_map]
    exact ⟨rfl, rfl⟩
  induction h with
  | top => exact fun h => by cases h
  | element hs =>
    rintro id length ⟨⟩ -
    rw [List.findSome?_cons, (hseen hs).2]
    rfl
  | @through id parent path m hs hwalk ih =>
    rintro _ length ⟨⟩ hlength
    obtain ⟨hparent, hmarkup⟩ := hseen hs
    rw [List.findSome?_cons, hmarkup, Option.map_none]
    cases parent with
    | none =>
      obtain _ | _ := hwalk
      cases length <;> simp [ancestorsIn, hparent]
    | some p =>
      have hpos : 0 < path.length := by cases hwalk <;> exact Nat.succ_pos _
      obtain ⟨length, rfl⟩ : ∃ k, length = k + 1 :=
        ⟨length - 1, by rw [List.length_cons] at hlength; omega⟩
      rw [ancestorsIn, hparent]
      exact ih rfl (Nat.le_of_succ_le_succ hlength)

/-- A walk comes by at most as many nodes as there are. -/
theorem length_walk_le (hvalid : e.nodes.Valid) {path : List NodeId} {start : Option NodeId}
    {m : Namespace} (h : e.nodes.seating.Walk path start m) : path.length ≤ e.nodes.size := by
  refine Arena.length_le_size path hvalid h.nodup fun id hid => ?_
  obtain ⟨s, hs⟩ := (h.at_mem hid).1
  obtain ⟨n, hn, -⟩ := Option.map_eq_some_iff.1 hs
  exact ⟨n, hn⟩

/-- The namespace at a node is the one that a walk finds. -/
theorem namespaceAt_of_walk (hvalid : e.nodes.Valid) {path : List NodeId} {id : NodeId}
    {m : Namespace} (h : e.nodes.seating.Walk path (some id) m) : e.namespaceAt id = m :=
  findSome?_ancestorsIn_of_walk h rfl
    (Nat.le_trans (length_walk_le hvalid h) (Nat.le_add_right _ 2))

/-- At a node that is or was there, what is built is named rightly by the namespace at the node. -/
theorem Nests.here (h : e.Nests C) {id : NodeId} (hid : e.nodes.seating.known id) :
    e.Nests (C.add id (e.namespaceAt id)) :=
  ⟨h.1, fun hroom => (h.2 hroom).add hid fun hwalk => namespaceAt_of_walk h.1 hwalk⟩

end Engine
end ReactiveView
