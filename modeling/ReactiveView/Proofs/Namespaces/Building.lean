import ReactiveView.Proofs.Namespaces.Seating
import ReactiveView.Proofs.Structure.Effects

/-!
# Building in the right namespace

Building at an open place, updating and rebuilding keep `Engine.Nests`, whatever comes of them and
whatever code does meanwhile: elements stay in the right namespace, and what was an open place when
the operation began is one when it ends (`Reentry.within_nests`).

The places are those of the cursors that are in use. An operation that creates a node and goes on
under it, or that takes a node up again and reads the namespace at it, works with one more place for
as long as it does.
-/

namespace ReactiveView

/-- Building at an open place, updating and rebuilding keep elements in the right namespace. -/
structure Reentry.Nesting (re : Reentry) : Prop where
  /-- Building a body. -/
  build : ∀ {C : Openings} (body : Body) {c : Cursor}, C c.parent c.ns →
    (re.build body c).Keeps (Engine.Nests C)
  /-- Updating a node. -/
  update : ∀ {C : Openings} (id : NodeId), (re.update id).Keeps (Engine.Nests C)
  /-- Rebuilding a context. -/
  rebuild : ∀ {C : Openings} (ctx : NodeId), (re.rebuild ctx).Keeps (Engine.Nests C)

/-- The place under a new node is open beside the others. -/
theorem Openings.add_self (C : Openings) (id : NodeId) (ns : Namespace) : C.add id ns id ns :=
  .inl ⟨rfl, rfl⟩

namespace Engine

variable {e : Engine} {C : Openings}

/-- A new node at an open place. -/
theorem nests_addNode {kind : RenderKind} {c : Cursor} (hc : C c.parent c.ns)
    (hkind : c.ns.Admits kind.markup?) (flags : NodeFlags) (h : e.Nests C) :
    (e.addNode kind c flags).2.Nests
      (C.add (e.addNode kind c flags).1 (c.ns.inside kind.markup?)) := by
  let n : RenderNode :=
    { kind := kind, parent := some c.parent, context := c.ctx, flags := flags, frame := c.frame }
  have hplaced : ∀ p, n.parent = some p → C p c.ns := by
    rintro _ ⟨⟩
    exact hc
  have hinserted := nests_insert (n := n) hplaced nofun hkind h
  have hadded := (nests_removal _).modifyChildren c.parent (· ++ [(e.nodes.insert n).1]) hinserted
  unfold addNode
  dsimp only
  split
  · exact hadded
  · exact hadded

/-- A new root. -/
theorem nests_addRoot (routine : Routine) (scope : Scope) (h : e.Nests C) :
    (e.addRoot routine scope).2.Nests (C.add (e.addRoot routine scope).1 .html) := by
  let data : ContextData := { name := routine.name, routine := routine, scope := scope }
  let n : RenderNode :=
    { kind := .context data, parent := none, context := ⟨0, 0⟩, flags := { reportable := true } }
  have hinserted := nests_insert (n := n) nofun (fun _ => rfl)
    (Namespace.admits_none .html) h
  exact (nests_removal _).quiet (e.nodes.insert n).1
    (fun p => { p with context := (e.nodes.insert n).1 })
    (fun _ _ => ⟨rfl, rfl, rfl, rfl, rfl, fun h => h⟩) hinserted

/-- Changing what a node is, if it is no component instance and looks the same. -/
theorem nests_modifyKind {id : NodeId} {f : RenderKind → RenderKind}
    (hf : ∀ n, e.node? id = some n → (f n.kind).picture = n.kind.picture) (h : e.Nests C) :
    (e.modifyKind id f).Nests C :=
  nests_modifyNode (fun n hn => congrArg (Seat.mk n.parent)
    (RenderKind.markup?_of_fixed (congrArg Picture.fixed (hf n hn)))) h

/-- Taking the instances out of a loop. -/
theorem nests_takeInstances (id : NodeId) (h : e.Nests C) : (e.takeInstances id).2.Nests C := by
  unfold takeInstances
  split
  · rename_i data hdata
    obtain ⟨n, hn, hkind⟩ := Option.map_eq_some_iff.1 hdata
    let picture := (RenderKind.loop data).picture
    have hloop : ∀ m, e.node? id = some m → m.kind.picture = picture ∧ m.kind.index? = none := by
      rintro m hm
      obtain rfl : n = m := Option.some.inj (hn.symm.trans hm)
      rw [hkind]
      exact ⟨rfl, rfl⟩
    -- a loop whose empty case is removed is still a loop, if it is there
    have hcleared : Nests C (if data.showingEmpty then e.clearChildren id else e) ∧
        ∀ m, (if data.showingEmpty then e.clearChildren id else e).node? id = some m →
          m.kind.picture = picture ∧ m.kind.index? = none := by
      split
      · exact ⟨(nests_removal C).clearChildren id h, (picture_removal id _).clearChildren id hloop⟩
      · exact ⟨h, hloop⟩
    have htaken := nests_modifyKind (f := fun _ =>
      .loop { data with state := .unbuilt, showingEmpty := false })
      (fun m hm => (hcleared.2 m hm).1.symm) hcleared.1
    dsimp only
    split
    · exact htaken
    · exact htaken
  · exact h

/-- Reporting that a subtree was moved. -/
theorem nests_markRebind (id : NodeId) (h : e.Nests C) : (e.markRebind id).Nests C :=
  List.foldlRecOn _ _ h fun _ he _ _ => nests_modifyNode (fun _ _ => rfl) he

end Engine

namespace Render

open Engine (Nests nests_stable nests_removal)

variable {re : Reentry} {C : Openings}

/-! ## Another place -/

/-- What keeps the invariant with one more place may be followed by what does not need the place. -/
theorem takes_of_add {α : Type} {x : Act α} {id : NodeId} {ns : Namespace}
    (hx : x.Keeps (Nests (C.add id ns))) : x.Takes (Nests (C.add id ns)) (Nests C) :=
  fun _ _ _ hgives he => (hx hgives he).of_add

/-- Creating a node at an open place. -/
theorem alloc_nests {kind : RenderKind} {c : Cursor} (hc : C c.parent c.ns)
    (hkind : c.ns.Admits kind.markup?) {flags : NodeFlags} {e e' : Engine}
    {r : Except EngineError NodeId}
    (hgives : (alloc kind c flags).Gives e r e') (he : e.Nests C) :
    e'.Nests C ∧ ∀ id, r = .ok id → e'.Nests (C.add id (c.ns.inside kind.markup?)) := by
  have hpoll : Act.poll.Keeps (Nests C) :=
    Act.keeps_poll fun _ he => (nests_stable C).tracking.poll he
  rcases Act.gives_bind.1 hgives with ⟨⟨⟩, e₁, hpolled, hstep⟩ | ⟨err, herr, rfl⟩
  · obtain ⟨rfl, rfl⟩ := Act.gives_step.1 hstep
    have hadded := Engine.nests_addNode hc hkind flags (hpoll hpolled he)
    refine ⟨hadded.of_add, ?_⟩
    rintro _ ⟨⟩
    exact hadded
  · exact ⟨hpoll herr he, nofun⟩

/-- Creating a node at an open place, and going on without it. -/
theorem alloc_keeps_nests {kind : RenderKind} {c : Cursor} (hc : C c.parent c.ns)
    (hkind : c.ns.Admits kind.markup?) (flags : NodeFlags) : (alloc kind c flags).Keeps (Nests C) :=
  fun _ _ _ hgives he => (alloc_nests hc hkind hgives he).1

/-- Creating a node that is no element, and going on with the place under it. -/
theorem alloc_bind_nests {α : Type} {kind : RenderKind} {c : Cursor} (hc : C c.parent c.ns)
    (hkind : kind.markup? = none) {flags : NodeFlags} {f : NodeId → Act α}
    (hf : ∀ id, (f id).Keeps (Nests (C.add id c.ns))) :
    Act.Keeps (Nests C) (alloc kind c flags >>= f) := by
  have hadmits : c.ns.Admits kind.markup? := hkind ▸ c.ns.admits_none
  have hinside : c.ns.inside kind.markup? = c.ns := by
    rw [hkind]
    rfl
  refine Act.keeps_bind_of (J := fun _ id e' => e'.Nests (C.add id c.ns))
    (alloc_keeps_nests hc hadmits flags) (fun {_ id _} hgives he => ?_) fun _ id _ => ?_
  · rw [← hinside]
    exact (alloc_nests hc hadmits hgives he).2 id rfl
  · exact takes_of_add (hf id)

/-- Reading the namespace at a node with an open place, and going on with it. -/
theorem namespaceAt_bind_nests {α : Type} {id : NodeId} {ns : Namespace} (hid : C id ns)
    {f : Namespace → Act α} (hf : ∀ m, (f m).Keeps (Nests (C.add id m))) :
    Act.Keeps (Nests C) (Act.read (·.namespaceAt id) >>= f) := by
  refine Act.keeps_bind_read fun e he => ?_
  rintro _ r e' hgives rfl
  refine (hf _ hgives ⟨he.1, fun hroom => ?_⟩).of_add
  exact (he.here ((he.2 hroom).opening hid).1).2 hroom

/-- Taking up a node that is there, and going on with a place under it. -/
theorem node_bind_nests {α : Type} {id : NodeId} {f : Option RenderNode → Act α}
    (hnone : (f none).Keeps (Nests C))
    (hsome : ∀ e n, e.node? id = some n →
      (f (some n)).Takes (fun e' => e' = e ∧ e.Nests (C.add id (e.namespaceAt id))) (Nests C)) :
    Act.Keeps (Nests C) (Act.read (·.node? id) >>= f) := by
  refine Act.keeps_bind_read fun e he => ?_
  rintro _ r e' hgives rfl
  cases hn : Engine.node? _ id with
  | none =>
    rw [hn] at hgives
    exact hnone hgives he
  | some n =>
    rw [hn] at hgives
    exact hsome _ n hn hgives ⟨rfl, he.here (.inl (Option.isSome_iff_exists.2 ⟨n, hn⟩))⟩

/-- Taking up a loop, and going on at its cursor. -/
theorem loopParts_bind_nests {α : Type} {id : NodeId} {f : Option (LoopSpec × Cursor) → Act α}
    (hnone : (f none).Keeps (Nests C))
    (hsome : ∀ spec c, (f (some (spec, c))).Keeps (Nests (C.add c.parent c.ns))) :
    Act.Keeps (Nests C) (Act.read (·.loopParts? id) >>= f) := by
  refine Act.keeps_bind_read fun e he => ?_
  rintro _ r e' hgives rfl
  cases hparts : Engine.loopParts? _ id with
  | none =>
    rw [hparts] at hgives
    exact hnone hgives he
  | some parts =>
    obtain ⟨spec, c⟩ := parts
    rw [hparts] at hgives
    obtain ⟨n, hn, hloop⟩ := Option.bind_eq_some_iff.1 hparts
    refine (hsome spec c hgives ?_).of_add
    split at hloop
    · obtain ⟨rfl, rfl⟩ := Prod.mk.inj (Option.some.inj hloop)
      exact he.here (.inl (Option.isSome_iff_exists.2 ⟨n, hn⟩))
    · cases hloop

end Render

section

variable {re : Reentry} (hre : re.Nesting) {C : Openings}
include hre

open Engine (Nests nests_stable nests_removal)

/-- What code enters from inside keeps elements in the right namespace. -/
theorem Reentry.Nesting.enters : re.EntersKeeping (Nests C) := by
  have henter (name : String) {action : Act Unit} (ha : action.Keeps (Nests C)) :
      RenderM.Keeps (Nests C) (Intrinsic.enter name action) := by
    refine RenderM.keeps_bind (RenderM.keeps_modify fun _ he => he) fun _ => ?_
    refine RenderM.keeps_bind ha fun outcome => ?_
    cases outcome with
    | ok _ => exact RenderM.keeps_pure _
    | error _ => exact RenderM.keeps_pure _
  exact ⟨fun name ctx => henter name (hre.rebuild ctx), fun name id => henter name (hre.update id)⟩

/-- Evaluation keeps elements in the right namespace. -/
theorem Act.Evaluates.nests {α : Type} {x : Act α} (hx : x.Evaluates re) : x.Keeps (Nests C) :=
  hx _ (nests_stable C) hre.enters

namespace Render

/-! ## Elements and texts -/

/-- Creating an element at an open place. -/
theorem beginElement_nests {tag : String} {actions : List AttrAction} {c : Cursor}
    (hc : C c.parent c.ns) {e e' : Engine} {r : Except EngineError (NodeId × Cursor)}
    (hgives : (beginElement re tag actions c).Gives e r e') (he : e.Nests C) :
    e'.Nests C ∧ ∀ p, r = .ok p → e'.Nests (C.add p.2.parent p.2.ns) := by
  have hadmits (data : ElementData) (hdata : data.tag = tag ∧ data.ns = .below c.ns tag) :
      c.ns.Admits (RenderKind.element data).markup? := by
    rintro _ _ ⟨⟩
    rw [hdata.1, hdata.2]
  rcases Act.gives_bind.1 hgives with ⟨id, e₁, halloc, hrest⟩ | ⟨err, halloc, rfl⟩
  · have hallocated := (alloc_nests hc (hadmits _ ⟨rfl, rfl⟩) halloc he).2 id rfl
    have hev := (nests_stable (C.add id (.below c.ns tag))).tracking
    have hend : e'.Nests (C.add id (.below c.ns tag)) := by
      refine Act.keeps_bind (prepareElement_keeps hev hre.enters id c actions) (fun injected => ?_)
        hrest hallocated
      refine Act.keeps_bind ((evaluates_refreshElement id).nests hre) fun _ => ?_
      refine Act.keeps_bind (runHooks_keeps hev hre.enters _ id _) fun _ => ?_
      refine Act.keeps_bind (processNode_keeps hev hre.enters _ id) fun _ => ?_
      exact Act.keeps_bind (enterFrame_keeps hev _ injected) fun inner => Act.keeps_pure _
    refine ⟨hend.of_add, ?_⟩
    rintro p rfl
    -- a frame may be entered, but neither the parent nor the namespace changes
    have hframe (inner : Cursor) (bindings : List (String × Value)) : (enterFrame inner
        bindings).Returns fun c' => c'.parent = inner.parent ∧ c'.ns = inner.ns := by
      unfold enterFrame
      split
      · exact Act.returns_pure ⟨rfl, rfl⟩
      · exact Act.returns_bind fun _ => Act.returns_pure ⟨rfl, rfl⟩
    have hplace := Act.returns_bind
      (P := fun p : NodeId × Cursor => p.2.parent = id ∧ p.2.ns = .below c.ns tag) (fun injected =>
        Act.returns_bind fun _ => Act.returns_bind fun _ => Act.returns_bind fun _ =>
          Act.returns_bind_of (hframe _ injected) fun inner hinner => Act.returns_pure hinner) hrest
    rw [hplace.1, hplace.2]
    exact hend
  · exact ⟨(alloc_nests hc (hadmits _ ⟨rfl, rfl⟩) halloc he).1, nofun⟩

/-- Building an element. -/
theorem buildElement_nests (tag : String) (actions : List AttrAction) (content : Content)
    {c : Cursor} (hc : C c.parent c.ns) :
    (buildElement re tag actions content c).Keeps (Nests C) := by
  unfold buildElement
  split
  · exact Act.keeps_pure _
  · refine Act.keeps_bind_of (J := fun _ p e' => e'.Nests (C.add p.2.parent p.2.ns))
      (fun _ _ _ hgives he => (beginElement_nests hre hc hgives he).1)
      (fun hgives he => (beginElement_nests hre hc hgives he).2 _ rfl) fun _ p _ => ?_
    obtain ⟨id, inner⟩ := p
    have hfinish := finishElement_keeps
      (nests_stable (C.add inner.parent inner.ns)).tracking hre.enters id
    cases content with
    | text source =>
      exact takes_of_add <| Act.keeps_bind ((evaluates_setElementText id source).nests hre)
        fun _ => hfinish
    | body body =>
      exact takes_of_add <| Act.keeps_bind (hre.build body (C.add_self _ _)) fun _ => hfinish

/-- Building a text node. -/
theorem buildText_nests (source : TextSource) {c : Cursor} (hc : C c.parent c.ns) :
    (buildText re source c).Keeps (Nests C) := by
  cases source with
  | literal text =>
    refine Act.keeps_bind (Act.keeps_step fun _ he =>
      (nests_stable C).tracking.localizeText _ he) fun _ => ?_
    exact Act.keeps_discard (alloc_keeps_nests hc (Namespace.admits_none _) _)
  | dynamic e =>
    exact alloc_bind_nests hc rfl fun id => Act.keeps_discard ((evaluates_refreshText id).nests hre)

/-! ## Components -/

/-- Building the template of a context. -/
theorem runRoutine_nests {ctx : NodeId} {ns : Namespace} (hctx : C ctx ns) :
    (runRoutine re ctx ns).Keeps (Nests C) := by
  refine Act.keeps_bind (Act.keeps_read _) fun found => ?_
  cases found with
  | none => exact Act.keeps_throw _
  | some data =>
    refine Act.keeps_bind (hre.build _ hctx) fun _ => ?_
    exact callOwnHook_keeps (nests_stable C).tracking hre.enters _ _ _ _

/-- Setting a new context up. -/
theorem setupComponent_nests {id : NodeId} (actions : List AttrAction) {c : Cursor}
    (hid : C id c.ns) : (setupComponent re id actions c).Keeps (Nests C) := by
  have hev := (nests_stable C).tracking
  refine Act.keeps_bind (Act.keeps_read _) fun owner => ?_
  refine Act.keeps_bind (prepareContext_keeps hev hre.enters trivial owner c actions) fun _ => ?_
  refine Act.keeps_bind (Act.keeps_change fun _ he => ?_) fun _ => ?_
  · exact hev.modifyContext (fun _ => rfl) (fun _ => rfl) (fun _ h => h) he
  refine Act.keeps_bind (runHooks_keeps hev hre.enters _ id _) fun _ => ?_
  refine Act.keeps_bind (processNode_keeps hev hre.enters _ id) fun _ => ?_
  refine Act.keeps_bind (runRoutine_nests hre hid) fun _ => ?_
  exact runHooks_keeps hev hre.enters _ id _

/-- Building an instance of a component. -/
theorem buildComponent_nests (name : String) (actions : List AttrAction) (slots : SlotContent)
    {c : Cursor} (hc : C c.parent c.ns) :
    (buildComponent re name actions slots c).Keeps (Nests C) := by
  have hev := (nests_stable C).tracking
  unfold buildComponent
  split
  · exact Act.keeps_pure _
  · refine Act.keeps_bind (resolveComponent_keeps hev name) fun found => ?_
    cases found with
    | none =>
      refine Act.keeps_bind (Act.keeps_read _) fun reported => ?_
      cases reported with
      | true => exact Act.keeps_change fun _ he => hev.diagnose _ _ _ _ he
      | false => exact Act.keeps_pure _
    | some routine =>
      refine Act.keeps_bind (Act.keeps_read _) fun data => alloc_bind_nests hc rfl fun id => ?_
      have hremoval := nests_removal (C.add id c.ns)
      refine Act.keeps_tryCatch (setupComponent_nests hre actions (C.add_self _ _)) fun err => ?_
      have hremove (err : EngineError) : Act.Keeps (Nests (C.add id c.ns)) (do
          Act.change (·.removeNode id)
          throw err : Act Unit) :=
        Act.keeps_bind (Act.keeps_change fun _ he => hremoval.removeNode id he) fun _ =>
          Act.keeps_throw _
      cases err with
      | initFailed _ =>
        exact Act.keeps_change fun _ he => hremoval.removeNode id
          ((nests_stable _).tracking.diagnose _ _ _ _ he)
      | _ => exact hremove _

/-- Building the content of a slot: at the place of the slot, whatever context it belongs to. -/
theorem buildSlot_nests (name : Option String) (fallback : Option Body) {c : Cursor}
    (hc : C c.parent c.ns) : (buildSlot re name fallback c).Keeps (Nests C) := by
  refine Act.keeps_bind (Act.keeps_read _) fun binding => ?_
  dsimp only
  split
  · rename_i body inner hcontent
    obtain ⟨slot, -, hcontent⟩ := Option.bind_eq_some_iff.1 hcontent
    obtain ⟨body', -, heq⟩ := Option.map_eq_some_iff.1 hcontent
    obtain ⟨rfl, rfl⟩ := Prod.mk.inj heq
    -- the content reads the variables of its own context, but it is put where the slot is
    exact hre.build _ hc
  · cases fallback with
    | none => exact Act.keeps_pure _
    | some body => exact hre.build body hc

/-! ## Conditions and sets -/

/-- Building a branch: at the condition, in the namespace at it. -/
theorem buildBranch_nests (id : NodeId) (selected : Option Nat) :
    (buildBranch re id selected).Keeps (Nests C) := by
  refine node_bind_nests (Act.keeps_pure _) fun e n hn => ?_
  dsimp only
  split
  · rename_i data hkind
    refine Act.takes_bind (R := Nests (C.add id (e.namespaceAt id))) (Act.takes_change ?_)
      (fun _ he => he.of_add) fun _ => takes_of_add ?_
    · rintro _ ⟨rfl, he⟩
      refine Engine.nests_modifyKind (fun m hm => ?_) he
      obtain rfl : n = m := Option.some.inj (hn.symm.trans hm)
      rw [hkind]
      rfl
    · split
      · exact Act.keeps_pure _
      · exact namespaceAt_bind_nests (C.add_self _ _) fun m =>
          hre.build _ (Openings.add_self _ id m)
  · exact (Act.keeps_pure (I := Nests C) _).takes fun _ he => he.1 ▸ he.2.of_add

/-- Building a condition. -/
theorem buildChoice_nests (branches : List Branch) (reactive : Bool) {c : Cursor}
    (hc : C c.parent c.ns) : (buildChoice re branches reactive c).Keeps (Nests C) :=
  alloc_bind_nests hc rfl fun _ =>
    Act.keeps_bind (selectBranch_keeps (nests_stable _).tracking hre.enters trivial) fun selected =>
      buildBranch_nests hre _ selected

/-- Building what a set binds its value for: at the set, in the namespace at it. -/
theorem fillSet_nests (id : NodeId) (v : Value) : (fillSet re id v).Keeps (Nests C) := by
  refine node_bind_nests (Act.keeps_pure _) fun e n hn => ?_
  dsimp only
  split
  · rename_i data hkind
    refine Act.takes_bind (R := Nests (C.add id (e.namespaceAt id))) (Act.takes_change ?_)
      (fun _ he => he.of_add) fun _ => takes_of_add ?_
    · rintro _ ⟨rfl, he⟩
      refine Engine.nests_modifyKind (fun m hm => ?_) he
      obtain rfl : n = m := Option.some.inj (hn.symm.trans hm)
      rw [hkind]
      rfl
    · refine Act.keeps_bind (Act.keeps_step fun _ he =>
        (nests_stable _).tracking.addFrame _ _ he) fun _ => ?_
      exact namespaceAt_bind_nests (C.add_self _ _) fun m =>
        hre.build _ (Openings.add_self _ id m)
  · exact (Act.keeps_pure (I := Nests C) _).takes fun _ he => he.1 ▸ he.2.of_add

/-- Building a set. -/
theorem buildSet_nests (name : String) (value : DynamicExpr) (body : Body) {c : Cursor}
    (hc : C c.parent c.ns) : (buildSet re name value body c).Keeps (Nests C) :=
  alloc_bind_nests hc rfl fun _ =>
    Act.keeps_bind (setValue_keeps (nests_stable _).tracking hre.enters trivial) fun v =>
      fillSet_nests hre _ v

/-! ## Loops -/

/-- Building an instance of a loop. -/
theorem buildInstance_nests (spec : LoopSpec) {c : Cursor} (hc : C c.parent c.ns) (item : Value)
    (index : Nat) (identity : Option Value) :
    (buildInstance re spec c item index identity).Keeps (Nests C) := by
  have hev := (nests_stable C).tracking
  refine Act.keeps_bind (Act.keeps_poll fun _ he => hev.poll he) fun _ => ?_
  refine Act.keeps_bind (Act.keeps_step fun _ he => hev.addFrame _ _ he) fun frame => ?_
  refine Act.keeps_bind (Act.keeps_read _) fun _ => ?_
  refine Act.keeps_bind (hre.build (c := c.inFrame frame) _ hc) fun _ => ?_
  exact Act.keeps_bind (Act.keeps_read _) fun _ => Act.keeps_pure _

/-- Building the instances of a loop with identities. -/
theorem buildKeyed_nests (spec : LoopSpec) {c : Cursor} (hc : C c.parent c.ns)
    (items : List Value) : ∀ instances, (buildKeyed re spec c items instances).Keeps (Nests C) := by
  induction items with
  | nil => exact fun _ => Act.keeps_pure _
  | cons item items ih =>
    intro instances
    have hkey := loopKey_keeps (nests_stable C).tracking hre.enters spec c item
    refine Act.keeps_bind hkey fun p => ?_
    obtain ⟨key, identity⟩ := p
    dsimp only
    split
    · exact ih instances
    · exact Act.keeps_bind (buildInstance_nests hre spec hc item _ _) fun _ => ih _

/-- Building the instances of a loop without identities. -/
theorem buildPlain_nests (spec : LoopSpec) {c : Cursor} (hc : C c.parent c.ns)
    (items : List Value) : ∀ index, (buildPlain re spec c index items).Keeps (Nests C) := by
  induction items with
  | nil => exact fun _ => Act.keeps_pure _
  | cons item items ih =>
    intro index
    have hbuilt := buildInstance_nests hre spec hc item index none
    exact Act.keeps_bind (Act.keeps_discard hbuilt) fun _ => ih (index + 1)

/-- Finishing a loop. -/
theorem finishLoop_nests (id : NodeId) (spec : LoopSpec) {c : Cursor} (hc : C c.parent c.ns)
    (state : LoopState) : (finishLoop re id spec c state).Keeps (Nests C) := by
  have hstate {f : RenderKind → RenderKind} (hf : ∀ kind, (f kind).picture = kind.picture) :
      Act.Keeps (Nests C) (Act.change (·.modifyKind id f)) :=
    Act.keeps_change fun _ he => Engine.nests_modifyKind (fun n _ => hf n.kind) he
  unfold finishLoop
  split
  · split
    · refine Act.keeps_bind (hre.build _ hc) fun _ => hstate fun kind => ?_
      cases kind <;> rfl
    · refine hstate fun kind => ?_
      cases kind <;> rfl
  · refine hstate fun kind => ?_
    cases kind <;> rfl

/-- Building all instances of a loop: at the loop, in the namespace at it. -/
theorem fillLoop_nests (id : NodeId) (items : List Value) :
    (fillLoop re id items).Keeps (Nests C) := by
  refine loopParts_bind_nests (Act.keeps_pure _) fun spec c => ?_
  have hc := C.add_self c.parent c.ns
  dsimp only
  split
  · exact Act.keeps_bind (buildKeyed_nests hre spec hc items _) fun _ =>
      finishLoop_nests hre id spec hc _
  · exact Act.keeps_bind (buildPlain_nests hre spec hc items 0) fun _ =>
      finishLoop_nests hre id spec hc _

/-- Building a loop. -/
theorem buildLoop_nests (spec : LoopSpec) {c : Cursor} (hc : C c.parent c.ns) :
    (buildLoop re spec c).Keeps (Nests C) :=
  alloc_bind_nests hc rfl fun _ =>
    Act.keeps_bind (loopItems_keeps (nests_stable _).tracking hre.enters trivial) fun items =>
      fillLoop_nests hre _ items

/-! ## Carriers, signals and bodies -/

/-- Building a carrier. -/
theorem buildCarrier_nests (spec : CarrierSpec) {c : Cursor} (hc : C c.parent c.ns) :
    (buildCarrier re spec c).Keeps (Nests C) := by
  have hev := (nests_stable C).tracking
  refine Act.keeps_bind (carrierTexts_keeps hev hre.enters c _) fun texts => ?_
  refine Act.keeps_bind (Act.keeps_read _) fun context => ?_
  have halloc (data : CarrierData) :
      Act.Keeps (Nests C) (discard (alloc (.carrier data) c { reportable := true })) :=
    Act.keeps_discard (alloc_keeps_nests hc (Namespace.admits_none _) _)
  have hrest (text : Option String) : Act.Keeps (Nests C) (do
      let restyle := spec.kind ≠ .script && !spec.everywhere
      if restyle then
        Act.change (·.modifyContext c.ctx fun data => { data with restyle := true })
      discard (alloc (.carrier ⟨spec.kind, carrierAttrs spec context texts, text, restyle⟩) c
        { reportable := true })) := by
    dsimp only
    split
    · refine Act.keeps_bind (Act.keeps_change fun _ he => ?_) fun _ => halloc _
      exact hev.modifyContext (fun _ => rfl) (fun _ => rfl) (fun _ h => h) he
    · exact halloc _
  split
  · exact Act.keeps_bind (Act.keeps_pure _) hrest
  · exact Act.keeps_bind (Act.keeps_pure _) hrest
  · refine Act.keeps_bind (evaluateAt_keeps hev hre.enters (Site.readsFor_untracked _ _ _) _)
      fun _ => ?_
    exact Act.keeps_bind (Act.keeps_pure _) hrest

omit hre in
/-- Building a signal. -/
theorem buildSignal_nests (key action : String) {c : Cursor} (hc : C c.parent c.ns) :
    (buildSignal key action c).Keeps (Nests C) :=
  alloc_bind_nests hc rfl fun _ => Act.keeps_discard <| Act.keeps_step fun _ he =>
    (nests_stable _).tracking.lookupAt (Site.readsFor_ofNode trivial _ _ _) key he

/-- Running a build step at an open place. -/
theorem runStep_nests (step : Step) {c : Cursor} (hc : C c.parent c.ns) :
    (runStep re c step).Keeps (Nests C) := by
  have hev := (nests_stable C).tracking
  cases step with
  | element tag actions content =>
    exact Act.keeps_bind (buildElement_nests hre tag actions content hc) fun _ => Act.keeps_pure _
  | text source => exact Act.keeps_bind (buildText_nests hre source hc) fun _ => Act.keeps_pure _
  | component name actions slots =>
    refine Act.keeps_bind (componentName_keeps hev hre.enters c name) fun name => ?_
    exact Act.keeps_bind (buildComponent_nests hre name actions slots hc) fun _ => Act.keeps_pure _
  | choice branches reactive =>
    exact Act.keeps_bind (buildChoice_nests hre branches reactive hc) fun _ => Act.keeps_pure _
  | loop spec => exact Act.keeps_bind (buildLoop_nests hre spec hc) fun _ => Act.keeps_pure _
  | set name value body =>
    exact Act.keeps_bind (buildSet_nests hre name value body hc) fun _ => Act.keeps_pure _
  | slot name fallback =>
    exact Act.keeps_bind (buildSlot_nests hre name fallback hc) fun _ => Act.keeps_pure _
  | code body line =>
    exact Act.keeps_bind (runCodeBlock_keeps hev hre.enters body line c) fun _ => Act.keeps_pure _
  | carrier spec =>
    exact Act.keeps_bind (buildCarrier_nests hre spec hc) fun _ => Act.keeps_pure _
  | scope bindings body =>
    refine Act.keeps_bind (bindingValues_keeps hev hre.enters c bindings) fun values => ?_
    refine Act.keeps_bind (Act.keeps_step fun _ he => hev.addFrame _ _ he) fun frame => ?_
    exact Act.keeps_bind (hre.build (c := c.inFrame frame) _ hc) fun _ => Act.keeps_pure _
  | signal key action =>
    exact Act.keeps_bind (buildSignal_nests key action hc) fun _ => Act.keeps_pure _
  | fragment body => exact Act.keeps_bind (hre.build body hc) fun _ => Act.keeps_pure _

omit hre in
/-- A build step hands on the place that it was given. -/
theorem runStep_returns (step : Step) (c : Cursor) :
    (runStep re c step).Returns fun c' => c'.parent = c.parent ∧ c'.ns = c.ns := by
  have hplace {α : Type} (x : Act α) :
      Act.Returns (x >>= fun _ => pure c) fun c' => c'.parent = c.parent ∧ c'.ns = c.ns :=
    Act.returns_bind fun _ => Act.returns_pure ⟨rfl, rfl⟩
  cases step with
  | component name actions slots => exact Act.returns_bind fun _ => hplace _
  | scope bindings body =>
    exact Act.returns_bind fun _ => Act.returns_bind fun _ => Act.returns_bind fun _ =>
      Act.returns_pure ⟨rfl, rfl⟩
  | _ => exact hplace _

/-- Building a body at an open place. -/
theorem buildBody_nests (body : Body) {c : Cursor} (hc : C c.parent c.ns) :
    (buildBody re body c).Keeps (Nests C) := by
  refine Act.keeps_discard ?_
  -- the cursor changes from step to step, but not its place
  induction body.steps generalizing c with
  | nil => exact Act.keeps_pure _
  | cons step steps ih =>
    rw [List.foldlM_cons]
    refine Act.keeps_bind_of
      (J := fun _ c' e' => (c'.parent = c.parent ∧ c'.ns = c.ns) ∧ e'.Nests C)
      (runStep_nests hre step hc)
      (fun hgives he => ⟨runStep_returns step c hgives, runStep_nests hre step hc hgives he⟩)
      fun _ c' _ => ?_
    rintro e r e' hgives ⟨⟨hparent, hns⟩, he⟩
    exact ih (c := c') (by rwa [hparent, hns]) hgives he

/-! ## Updates -/

/-- Updating everything under a node. -/
theorem updateChildren_nests (id : NodeId) : (updateChildren re id).Keeps (Nests C) :=
  Act.keeps_bind (Act.keeps_read _) fun _ => Act.keeps_forM fun child _ => hre.update child

/-- Updating what is under a node, if that is asked for. -/
theorem descend_nests (id : NodeId) (recursive : Bool) :
    Act.Keeps (Nests C) (if recursive then updateChildren re id else pure ()) :=
  Act.keeps_ite (updateChildren_nests hre id) (Act.keeps_pure _)

omit hre in
/-- Removing what is under a node before it is filled again. -/
theorem refill_nests (id : NodeId) {fill : Act Unit} (hfill : fill.Keeps (Nests C)) :
    Act.Keeps (Nests C) (do
      Act.change (·.clearChildren id)
      fill) :=
  Act.keeps_bind (Act.keeps_change fun _ he => (nests_removal C).clearChildren id he) fun _ => hfill

/-- Updating a loop without identities. -/
theorem updatePlain_nests (id : NodeId) (items : List Value) (recursive : Bool) :
    (updatePlain re id items recursive).Keeps (Nests C) := by
  refine Act.keeps_bind (Act.keeps_read _) fun found => ?_
  cases found with
  | none => exact Act.keeps_pure _
  | some n =>
    dsimp only
    split
    · exact Act.keeps_ite (descend_nests hre id recursive)
        (refill_nests id (fillLoop_nests hre id items))
    · exact Act.keeps_pure _

/-- Updating an instance that stays. -/
theorem keepInstance_nests (spec : LoopSpec) (c : Cursor) (kept : Instance) (item : Value)
    (index : Nat) (identity : Value) (recursive : Bool) :
    (keepInstance re spec c kept item index identity recursive).Keeps (Nests C) := by
  have hev := (nests_stable C).tracking
  refine Act.keeps_bind (Act.keeps_step fun e he => ?_) fun changed => ?_
  · exact hev.rebindFrame _ _ _ (hev.rebindFrame _ _ _ he)
  · exact Act.keeps_ite (Act.keeps_forM fun id _ => hre.update id) (Act.keeps_pure _)

/-- Arranging the instances of the wanted items: new ones are built at the cursor of the loop. -/
theorem arrangeInstances_nests (spec : LoopSpec) {c : Cursor} (hc : C c.parent c.ns)
    (recursive : Bool) (old : OrderedMap Key Instance) (wanted : List (Key × Value × Value)) :
    ∀ index, (arrangeInstances re spec c recursive old index wanted).Keeps (Nests C) := by
  induction wanted with
  | nil => exact fun _ => Act.keeps_pure _
  | cons entry wanted ih =>
    intro index
    obtain ⟨key, identity, item⟩ := entry
    unfold arrangeInstances
    split
    · refine Act.keeps_bind (keepInstance_nests hre spec c _ item index identity _) fun _ => ?_
      exact Act.keeps_bind (ih (index + 1)) fun _ => Act.keeps_pure _
    · refine Act.keeps_bind (buildInstance_nests hre spec hc item index _) fun _ => ?_
      exact Act.keeps_bind (ih (index + 1)) fun _ => Act.keeps_pure _

/-- Bringing a loop with identities in line with its items. -/
theorem reconcile_nests (id : NodeId) (items : List Value) (recursive : Bool) :
    (reconcile re id items recursive).Keeps (Nests C) := by
  refine loopParts_bind_nests (Act.keeps_pure _) fun spec c => ?_
  have hc := C.add_self c.parent c.ns
  have hev := (nests_stable (C.add c.parent c.ns)).tracking
  have hremoval := nests_removal (C.add c.parent c.ns)
  refine Act.keeps_bind (Act.keeps_step fun _ he => Engine.nests_takeInstances id he) fun old => ?_
  refine Act.keeps_bind (wantedItems_keeps hev hre.enters spec c items _) fun wanted => ?_
  refine Act.keeps_bind (Act.keeps_change fun _ he => hremoval.dropInstances old _ he) fun _ => ?_
  have harranged := arrangeInstances_nests hre spec hc recursive old wanted.entries 0
  refine Act.keeps_bind harranged fun p => ?_
  obtain ⟨arranged, moved⟩ := p
  refine Act.keeps_bind (Act.keeps_change fun _ he => ?_) fun _ => ?_
  · exact hremoval.modifyChildren id (fun _ => _) he
  refine Act.keeps_bind (Act.keeps_change fun e he => ?_) fun _ => ?_
  · exact List.foldlRecOn moved _ he fun _ he id _ => Engine.nests_markRebind id he
  · exact finishLoop_nests hre id spec hc _

/-- Building a context anew: at the context, in the namespace at it. -/
theorem rebuildContext_nests (ctx : NodeId) : (rebuildContext re ctx).Keeps (Nests C) := by
  refine node_bind_nests (Act.keeps_throw _) fun e n hn => ?_
  have hrest : Act.Keeps (Nests (C.add ctx (e.namespaceAt ctx))) (do
      let ns ← Act.read (·.namespaceAt ctx)
      Act.change (·.clearChildren ctx)
      Act.change (·.resetContext ctx)
      runRoutine re ctx ns) := by
    -- the namespace is read before anything is removed, which does not change it
    refine namespaceAt_bind_nests (C.add_self _ _) fun ns => refill_nests ctx ?_
    refine Act.keeps_bind (Act.keeps_change fun _ he => ?_) fun _ => ?_
    · exact (nests_stable _).tracking.modifyContext (fun _ => rfl) (fun _ => rfl) (fun _ h => h) he
    · exact runRoutine_nests hre (Openings.add_self _ ctx ns)
  rintro _ r e' hgives ⟨rfl, he⟩
  dsimp only at hgives
  split at hgives
  · exact (Act.keeps_bind (Act.keeps_throw _) (fun _ => hrest) hgives he).of_add
  · exact (hrest hgives he).of_add

/-- Evaluating a node again. -/
theorem updateNode_nests (id : NodeId) (recursive : Bool) :
    (updateNode re id recursive).Keeps (Nests C) := by
  have hev := (nests_stable C).tracking
  have hen := hre.enters (C := C)
  have hpurge : Act.Keeps (Nests C) (Act.change (·.purge id)) :=
    Act.keeps_change fun _ he => hev.purge id he
  have hreported {x : Act Bool} {rest : Act Unit} (hx : x.Keeps (Nests C))
      (hrest : rest.Keeps (Nests C)) : Act.Keeps (Nests C) (do
        if ← x then Act.change (·.report id)
        rest) := by
    refine Act.keeps_bind hx fun changed => ?_
    cases changed with
    | true =>
      refine Act.keeps_bind (Act.keeps_change fun _ he => ?_) fun _ => hrest
      exact (nests_stable C).report he
    | false => exact hrest
  have hdescend := descend_nests hre (C := C) id recursive
  refine Act.keeps_bind (Act.keeps_poll fun _ he => hev.poll he) fun _ => ?_
  refine Act.keeps_bind (Act.keeps_read _) fun found => ?_
  cases found with
  | none => exact Act.keeps_pure _
  | some n =>
    dsimp only
    split
    · exact Act.keeps_bind hpurge fun _ =>
        hreported ((evaluates_refreshElement id).nests hre) hdescend
    · exact Act.keeps_bind hpurge fun _ =>
        hreported ((evaluates_refreshText id).nests hre) (Act.keeps_pure _)
    · exact Act.keeps_bind (propagateSources_keeps hev hen trivial n _) fun _ => hdescend
    · refine Act.keeps_bind hpurge fun _ => ?_
      refine Act.keeps_bind (selectBranch_keeps hev hen trivial) fun selected => ?_
      exact Act.keeps_ite (refill_nests id (buildBranch_nests hre id selected)) hdescend
    · refine Act.keeps_bind hpurge fun _ => ?_
      refine Act.keeps_bind (loopItems_keeps hev hen trivial) fun items => ?_
      exact Act.keeps_ite (reconcile_nests hre id items recursive)
        (updatePlain_nests hre id items recursive)
    · refine Act.keeps_bind hpurge fun _ => ?_
      refine Act.keeps_bind (setValue_keeps hev hen trivial) fun v => ?_
      exact Act.keeps_ite (refill_nests id (fillSet_nests hre id v)) hdescend
    · exact Act.keeps_pure _
    · exact Act.keeps_ite (Act.keeps_pure _) (fireSignal_keeps hev hen _ id _)

/-- Updating the nodes that still exist. -/
theorem updateLive_nests (ids : List NodeId) : (updateLive re ids).Keeps (Nests C) := by
  refine Act.keeps_forM fun id _ => ?_
  refine Act.keeps_bind (Act.keeps_read _) fun live => ?_
  cases live with
  | true => exact updateNode_nests hre id false
  | false => exact Act.keeps_pure _

/-- Following queued writes up. -/
theorem flush_nests (limit rounds : Nat) : (flush re limit rounds).Keeps (Nests C) := by
  induction rounds with
  | zero =>
    refine Act.keeps_bind (Act.keeps_read _) fun pending => ?_
    split
    · exact Act.keeps_pure _
    · exact Act.keeps_change fun _ he => he
  | succ rounds ih =>
    refine Act.keeps_bind (Act.keeps_read _) fun settled => ?_
    cases settled with
    | true => exact Act.keeps_pure _
    | false =>
      refine Act.keeps_bind (Act.keeps_step fun _ he => he) fun ids => ?_
      exact Act.keeps_bind (updateLive_nests hre ids) fun _ => ih

/-- Running an operation and following its writes up. -/
theorem batch_nests {α : Type} {action : Act α} (ha : action.Keeps (Nests C)) :
    (batch re action).Keeps (Nests C) := by
  refine Act.keeps_bind (Act.keeps_lift ha) fun outcome => ?_
  refine Act.keeps_bind (Act.keeps_read _) fun limit => ?_
  refine Act.keeps_bind (Act.keeps_lift (flush_nests hre limit limit)) fun followed => ?_
  split
  · exact Act.keeps_throw _
  · exact Act.keeps_throw _
  · exact Act.keeps_pure _

end Render
end

/-- Building at an open place, updating and rebuilding keep elements in the right namespace, however
deeply they are nested. -/
theorem Reentry.within_nests (depth : Nat) : (Reentry.within depth).Nesting := by
  induction depth with
  | zero =>
    refine ⟨fun _ _ _ _ _ _ hgives => ?_, fun _ _ _ _ hgives => ?_, fun _ _ _ _ hgives => ?_⟩
    all_goals cases hgives
  | succ depth ih =>
    exact ⟨fun body _ hc => Render.buildBody_nests ih body hc,
      fun id => Render.updateNode_nests ih id true, fun ctx => Render.rebuildContext_nests ih ctx⟩

end ReactiveView
