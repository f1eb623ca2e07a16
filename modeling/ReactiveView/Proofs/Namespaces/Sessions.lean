import ReactiveView.Proofs.Namespaces.Building
import ReactiveView.Proofs.Structure.Sessions

/-!
# Elements are in the right namespace

The namespace of an element is that of its tag below the nearest element above it, across
conditions, loops, sets, component instances and the content of slots, or below documents if there
is none. It is so whether the element was built at first, with its namespace handed down, or later
in place, with its namespace looked up (`Engine.NamingRuns.namespaces`).

That much holds after whatever a host does, failures included, and whatever code does inside, for
elements that belong to the tree. A host that builds at a cursor of its own answers for the
namespace that it names there (`Engine.NamesAt`): it is taken as it is given
(`Engine.Runs.named_otherwise`). If it builds nowhere, all operations succeed and code enters none
of them from inside, every element belongs to the tree.
-/

namespace ReactiveView

namespace Engine

/-- The namespace above a node: that of the nearest element above it. -/
def namespaceAbove (e : Engine) (id : NodeId) : Namespace :=
  ((e.ancestors id).findSome? fun a => (e.element? a).map (·.ns)).getD .html

/-- A node belongs to the tree as far as namespaces go: from its parent a walk over nodes that are
there gets to the nearest element or to the end. -/
def Joined (e : Engine) (id : NodeId) : Prop :=
  ∃ path m, e.nodes.seating.Walk path ((e.node? id).bind (·.parent)) m

/-- A cursor is at a node that was there, or at one that is there, in the namespace at it. -/
def NamesAt (e : Engine) (c : Cursor) : Prop :=
  e.nodes.Spent c.parent ∨ e.contains c.parent = true ∧ c.ns = e.namespaceAt c.parent

variable {e e' : Engine} {C : Openings} {id : NodeId}

/-! ## Elements -/

/-- A walk from the parent of a node finds the namespace above the node. -/
theorem namespaceAbove_of_walk (hvalid : e.nodes.Valid) {path : List NodeId} {m : Namespace}
    (h : e.nodes.seating.Walk path ((e.node? id).bind (·.parent)) m) : e.namespaceAbove id = m := by
  unfold namespaceAbove ancestors chainBound
  rw [ancestorsIn]
  cases hparent : (e.node? id).bind (·.parent) with
  | none =>
    rw [hparent] at h
    obtain _ | _ := h
    rfl
  | some p =>
    rw [hparent] at h
    exact findSome?_ancestorsIn_of_walk h rfl (Nat.le_succ_of_le (length_walk_le hvalid h))

/-- An element that belongs to the tree is in the namespace of its tag below the one above it. -/
theorem Nests.element (h : e.Nests C) (hroom : e.nodes.Roomy) {data : ElementData}
    (hdata : e.element? id = some data) (hjoined : e.Joined id) :
    data.ns = Namespace.below (e.namespaceAbove id) data.tag := by
  obtain ⟨path, m, hwalk⟩ := hjoined
  obtain ⟨n, hn, hkind⟩ := Option.bind_eq_some_iff.1 hdata
  have hseat : n.seat = ⟨n.parent, some (data.tag, data.ns)⟩ :=
    congrArg (Seat.mk n.parent) (congrArg (Option.map fun d : ElementData => (d.tag, d.ns)) hkind)
  rw [namespaceAbove_of_walk h.1 hwalk]
  rw [hn, Option.bind_some] at hwalk
  exact (h.2 hroom).element ((Arena.seating_of_get? hn).trans (congrArg some hseat)) hwalk

/-- In a tree, every node belongs to it. -/
theorem joined_of_tree {r : NodeId} (ht : e.shape.Tree r) (hid : e.contains id = true) :
    e.Joined id := by
  have hshape {x : NodeId} {n : RenderNode} (hn : e.node? x = some n) := shape_of_node? hn
  have hparent {x : NodeId} {n : RenderNode} (hn : e.node? x = some n) :
      n.parent = none ∨ ∃ p np, n.parent = some p ∧ e.node? p = some np := by
    by_cases hx : x = r
    · exact .inl (ht.root n.shape (hx ▸ hshape hn)).1
    · obtain ⟨p, np, hp, hnp, -⟩ := ht.parent x n.shape (hshape hn) hx
      obtain ⟨m, hm, -⟩ := node?_of_shape hnp
      exact .inr ⟨p, m, hp, hm⟩
  obtain ⟨d, hrank⟩ := ht.rank
  -- walks exist by induction on the rank, which falls from a node to its parent
  have hwalk (k : Nat) : ∀ {x n}, e.node? x = some n → d x = k →
      ∃ path m, e.nodes.seating.Walk path (some x) m := by
    induction k using Nat.strongRecOn with
    | ind k ih =>
      intro x n hn hk
      have hseat := Arena.seating_of_get? hn
      unfold RenderNode.seat at hseat
      cases hmarkup : n.kind.markup? with
      | some markup =>
        rw [hmarkup] at hseat
        exact ⟨[x], markup.2, .element hseat⟩
      | none =>
        rw [hmarkup] at hseat
        obtain hp | ⟨p, np, hp, hnp⟩ := hparent hn
        · rw [hp] at hseat
          exact ⟨[x], .html, .through hseat .top⟩
        · have hlt : d p < d x := hrank p x ⟨n.shape, hshape hn, hp⟩
          obtain ⟨path, m, hwalk⟩ := ih (d p) (hk ▸ hlt) hnp rfl
          rw [hp] at hseat
          exact ⟨x :: path, m, .through hseat hwalk⟩
  obtain ⟨n, hn⟩ := Option.isSome_iff_exists.1 hid
  have hn : e.node? id = some n := hn
  unfold Joined
  rw [hn, Option.bind_some]
  obtain hp | ⟨p, np, hp, hnp⟩ := hparent hn
  · rw [hp]
    exact ⟨[], .html, .top⟩
  · rw [hp]
    exact hwalk (d p) hnp rfl

/-- A node under an element belongs to the tree. -/
theorem joined_of_element {p : NodeId} {data : ElementData}
    (hparent : (e.node? id).bind (·.parent) = some p) (hdata : e.element? p = some data) :
    e.Joined id := by
  obtain ⟨n, hn, hkind⟩ := Option.bind_eq_some_iff.1 hdata
  have hmarkup : n.kind.markup? = some (data.tag, data.ns) :=
    congrArg (Option.map fun d : ElementData => (d.tag, d.ns)) hkind
  have hseat := Arena.seating_of_get? hn
  unfold RenderNode.seat at hseat
  rw [hmarkup] at hseat
  exact ⟨[p], data.ns, hparent ▸ .element hseat⟩

/-! ## Operations -/

/-- At a cursor that names the right namespace, something may be built. -/
theorem Nests.names {c : Cursor} (h : e.Nests C) (hc : e.NamesAt c) :
    e.Nests (C.add c.parent c.ns) := by
  obtain hspent | ⟨hlive, hns⟩ := hc
  · refine ⟨h.1, fun hroom => (h.2 hroom).add (.inr hspent) fun hwalk => ?_⟩
    -- no walk starts at a node that is gone
    have hseat : e.nodes.seating.seat? c.parent = none := congrArg (Option.map _) hspent.get?
    cases hwalk with
    | element hs => cases hseat.symm.trans hs
    | through hs => cases hseat.symm.trans hs
  · rw [hns]
    exact h.here (.inl hlive)

section

open Render

variable (depth : Nat)

/-- Changing the engine and following the writes up. -/
theorem batchChange_nests {f : Engine → Engine} (hf : ∀ e, e.Nests C → (f e).Nests C) :
    (batchChange (.within depth) f).Keeps (Nests C) :=
  batch_nests (Reentry.within_nests depth) (Act.keeps_change hf)

/-- Showing a component. -/
theorem mount_nests (name : String) (scope : Scope) : (mount depth name scope).Keeps (Nests C) := by
  have hre := Reentry.within_nests depth
  have hremove (C : Openings) (id : NodeId) := batchChange_nests (C := C) depth fun _ he =>
    (nests_removal C).removeNode id he
  have hplace (C : Openings) (root : Option NodeId) :
      Act.Keeps (Nests C) (Act.change fun e => { e with root := root }) :=
    Act.keeps_change fun _ he => he
  have hshow (routine : Routine) : Act.Keeps (Nests C) (do
      let id ← Act.step (·.addRoot routine scope)
      tryCatch (batch (.within depth) (runRoutine (.within depth) id .html)) fun err => do
        batchChange (.within depth) (·.removeNode id)
        Act.change fun e => { e with root := none }
        throw err
      return id) := by
    refine Act.keeps_bind_of (J := fun _ id e' => e'.Nests (C.add id .html))
      (Act.keeps_step fun _ he => (nests_addRoot routine scope he).of_add)
      (fun hgives he => ?_) fun _ id _ => takes_of_add ?_
    · obtain ⟨hid, rfl⟩ := Act.gives_step.1 hgives
      rw [Except.ok.inj hid]
      exact nests_addRoot routine scope he
    -- above the new root there is nothing, so that documents are under it
    refine Act.keeps_bind (Act.keeps_tryCatch ?_ fun err => ?_) fun _ => Act.keeps_pure _
    · exact batch_nests hre (runRoutine_nests hre (C.add_self id .html))
    · refine Act.keeps_bind (hremove _ id) fun _ => ?_
      exact Act.keeps_bind (hplace _ none) fun _ => Act.keeps_throw _
  refine Act.keeps_bind (resolveComponent_keeps (nests_stable C).tracking name) fun found => ?_
  cases found with
  | none => exact Act.keeps_throw _
  | some routine =>
    refine Act.keeps_bind (Act.keeps_read _) fun root => ?_
    cases root with
    | none => exact hshow routine
    | some old =>
      refine Act.keeps_bind (hplace C none) fun _ => ?_
      exact Act.keeps_bind (hremove C old) fun _ => hshow routine

/-- Removing a node. -/
theorem remove_nests (id : NodeId) : (remove depth id).Keeps (Nests C) := by
  have hrest : Act.Keeps (Nests C) (do
      Act.change fun e => if e.root = some id then { e with root := none } else e
      batchChange (.within depth) (·.removeNode id)) := by
    refine Act.keeps_bind (Act.keeps_change fun e he => ?_) fun _ => ?_
    · split
      · exact he
      · exact he
    · exact batchChange_nests depth fun _ he => (nests_removal C).removeNode id he
  refine Act.keeps_bind (Act.keeps_read _) fun live => ?_
  cases live with
  | true => exact hrest
  | false => exact Act.keeps_bind (Act.keeps_throw _) fun _ => hrest

/-- Building a component instance anew. -/
theorem rebuild_nests (ctx : NodeId) : (rebuild depth ctx).Keeps (Nests C) := by
  have hre := Reentry.within_nests depth
  refine Act.keeps_bind (Act.keeps_change fun e he => ?_) fun _ => ?_
  · split
    · exact (nests_stable C).tracking.send _ he
    · exact he
  · exact batch_nests hre (rebuildContext_nests hre ctx)

/-- Writing a variable. -/
theorem setVar_nests (ctx : NodeId) (name : String) (v : Value) :
    (setVar depth ctx name v).Keeps (Nests C) :=
  Act.keeps_bind (checkedOwner_keeps ctx) fun owner =>
    batchChange_nests depth fun _ he => (nests_stable C).tracking.writeVar owner name v he

/-- Calling a function. -/
theorem call_nests (ctx : NodeId) (name : String) (args : List Value) :
    (call depth ctx name args).Keeps (Nests C) := by
  have hre := Reentry.within_nests depth
  refine Act.keeps_bind (checkedOwner_keeps ctx) fun _ => batch_nests hre ?_
  exact callHook_keeps (nests_stable C).tracking hre.enters ctx none name args

/-- Reporting every node again. -/
theorem nests_refresh (he : e.Nests C) : e.refresh.Nests C := by
  unfold refresh
  split
  · exact he
  · exact he

/-- Acting upon a message. -/
theorem handle_nests (message : Inbound) : (handle depth message).Keeps (Nests C) := by
  have hre := Reentry.within_nests depth
  have hev := (nests_stable C).tracking
  cases message with
  | click oid method args =>
    refine Act.keeps_bind (checkedNode_keeps oid) fun id => ?_
    refine Act.keeps_bind (Act.keeps_read _) fun ctx => ?_
    exact batch_nests hre (callHookSafely_keeps hev hre.enters ctx _ method _)
  | bind oid value =>
    refine Act.keeps_bind (checkedNode_keeps oid) fun id => ?_
    refine Act.keeps_bind (Act.keeps_read _) fun found => ?_
    cases found with
    | none => exact Act.keeps_pure _
    | some name =>
      refine Act.keeps_bind (Act.keeps_read _) fun owner => ?_
      exact batchChange_nests depth fun _ he => hev.writeVar owner name _ he
  | answer kind oid value => exact Act.keeps_pure _
  | refresh => exact Act.keeps_change fun _ he => nests_refresh he

/-- Taking the changes since the last shot. -/
theorem nests_drainShot (he : e.Nests C) : e.drainShot.2.Nests C :=
  List.foldlRecOn (motive := Nests C) _ _ he fun _ he _ _ => nests_modifyNode (fun _ _ => rfl) he

end
end Engine

/-- What a host names where an operation builds is right. -/
def Operation.NamesIn (e : Engine) : Operation → Prop
  | build _ c => e.NamesAt c
  | _ => True

/-- Every operation keeps elements in the right namespace, if what the host names is right. -/
theorem Operation.act_nests {depth : Nat} {op : Operation} {C : Openings} {e e' : Engine}
    {r : Except EngineError Outcome} (hgives : (op.act depth).Gives e r e') (hop : op.NamesIn e)
    (he : e.Nests C) : e'.Nests C := by
  have hre := Reentry.within_nests depth
  cases op with
  | mount name scope => exact Act.keeps_map (Engine.mount_nests depth name scope) hgives he
  | build body c =>
    refine (Act.keeps_map ?_ hgives (he.names hop)).of_add
    exact Render.batch_nests hre (hre.build body (C.add_self _ _))
  | update id =>
    exact Act.keeps_map (Render.batch_nests hre (Render.updateNode_nests hre id false)) hgives he
  | updateTree id =>
    exact Act.keeps_map (Render.batch_nests hre (Render.updateNode_nests hre id true)) hgives he
  | rebuild ctx => exact Act.keeps_map (Engine.rebuild_nests depth ctx) hgives he
  | remove id => exact Act.keeps_map (Engine.remove_nests depth id) hgives he
  | setVar ctx name v => exact Act.keeps_map (Engine.setVar_nests depth ctx name v) hgives he
  | call ctx name args => exact Act.keeps_map (Engine.call_nests depth ctx name args) hgives he
  | handle message => exact Act.keeps_map (Engine.handle_nests depth message) hgives he
  | refresh =>
    exact Act.keeps_map (Act.keeps_change fun _ he => Engine.nests_refresh he) hgives he
  | drainShot =>
    exact Act.keeps_map (Act.keeps_step fun _ he => Engine.nests_drainShot he) hgives he
  | takeDiagnostics => exact Act.keeps_map (Act.keeps_step fun _ he => he) hgives he
  | takeMessages => exact Act.keeps_map (Act.keeps_step fun _ he => he) hgives he
  | setCancel token => exact Act.keeps_map (Act.keeps_change fun _ he => he) hgives he

/-! ## Runs -/

namespace Engine

/-- A run in which what the host names where an operation builds is right. -/
inductive NamingRuns : Engine → List Operation → List (Except EngineError Outcome) → Engine → Prop
  /-- Nothing is done. -/
  | nil (e : Engine) : NamingRuns e [] [] e
  /-- An operation is done before others. -/
  | cons {e e₁ e₂ : Engine} {op : Operation} {ops : List Operation} {depth : Nat}
      {r : Except EngineError Outcome} {rs : List (Except EngineError Outcome)}
      (names : op.NamesIn e) (first : (op.act depth).Gives e r e₁)
      (rest : NamingRuns e₁ ops rs e₂) : NamingRuns e (op :: ops) (r :: rs) e₂

variable {e e₁ e' : Engine} {C : Openings} {ops ops' : List Operation}
  {rs rs' : List (Except EngineError Outcome)}

/-- It is a run. -/
theorem NamingRuns.runs (h : e.NamingRuns ops rs e') : e.Runs ops rs e' := by
  induction h with
  | nil e => exact .nil e
  | cons _ first _ ih => exact .cons first ih

/-- A run of operations that do not build at a cursor is one. -/
theorem Runs.naming (h : e.Runs ops rs e') (hops : ∀ op ∈ ops, op.builds = false) :
    e.NamingRuns ops rs e' := by
  induction h with
  | nil e => exact .nil e
  | cons first _ ih =>
    rename_i op ops _ _ _ _
    refine .cons ?_ first (ih fun op hop => hops op (List.mem_cons_of_mem _ hop))
    have hop := hops op List.mem_cons_self
    cases op with
    | build => cases hop
    | _ => trivial

/-- One after another one is one. -/
theorem NamingRuns.append (h : e.NamingRuns ops rs e₁) (h' : e₁.NamingRuns ops' rs' e') :
    e.NamingRuns (ops ++ ops') (rs ++ rs') e' := by
  induction h with
  | nil e => exact h'
  | cons names first _ ih => exact .cons names first (ih h')

/-- Such a run keeps elements in the right namespace. -/
theorem NamingRuns.nests (h : e.NamingRuns ops rs e') (he : e.Nests C) : e'.Nests C := by
  induction h with
  | nil e => exact he
  | cons names first _ ih => exact ih (Operation.act_nests first names he)

/-- An operation that is seen to succeed has an outcome. -/
theorem exists_ok {r : Except EngineError Outcome} (h : r.isOk = true) :
    ∃ outcome, r = .ok outcome := by
  cases r with
  | ok outcome => exact ⟨outcome, rfl⟩
  | error err => cases h

/-- In a new engine nothing is built, and nothing is about to be. -/
theorem nests_start (host : Host) : host.start.Nests fun _ _ => False := by
  have hempty (id : NodeId) : host.start.nodes.seating.seat? id = none := rfl
  refine ⟨Arena.valid_empty, fun _ => ⟨fun hs _ => ?_, fun hs _ => ?_, nofun⟩⟩
  · cases (hempty _).symm.trans hs
  · cases (hempty _).symm.trans hs

/-- Whatever has been done, failures and what code did inside included, every element that belongs
to the tree is in the namespace of its tag below the nearest element above it, if the host has named
the right namespace wherever it built itself. If it has not built itself, all operations have
succeeded and code has entered none of them from inside, every element is. -/
theorem NamingRuns.namespaces {host : Host} {ops : List Operation}
    {rs : List (Except EngineError Outcome)} {e : Engine} (hrun : host.start.NamingRuns ops rs e)
    (hroom : e.nodes.Roomy) :
    (∀ id data, e.element? id = some data → e.Joined id →
      data.ns = Namespace.below (e.namespaceAbove id) data.tag) ∧
    ((∀ op ∈ ops, op.builds = false) → (∀ r ∈ rs, ∃ outcome, r = .ok outcome) → e.entries = 0 →
      ∀ id data, e.element? id = some data →
        data.ns = Namespace.below (e.namespaceAbove id) data.tag) := by
  have hnests := hrun.nests (nests_start host)
  refine ⟨fun id data hdata hjoined => hnests.element hroom hdata hjoined,
    fun hops hok hentries id data hdata => hnests.element hroom hdata ?_⟩
  obtain ⟨r, hr⟩ := hrun.runs.rooted hops hok ⟨hentries, hroom⟩ host.rooted_start
  obtain ⟨n, hn, -⟩ := Option.bind_eq_some_iff.1 hdata
  exact joined_of_tree hr.tree (Option.isSome_iff_exists.2 ⟨n, hn⟩)

/-- In the content of a slot inside of graphics, a condition is built anew, and the host builds
beside it. -/
theorem NamingRuns.namespaces_graphic :
    let host : Host :=
      { library :=
        { registry :=
          { sources := .ofList
              [("Main", "<svg><Frame>\x7b\x7b!#if x\x7d\x7d<foreignObject><p></p></foreignObject>\x7b\x7b/if\x7d\x7d</Frame></svg>"),
                ("Frame", "<g><slot></slot></g>")] } } }
    let ops : List Operation :=
      [.mount "Main" (.ofList [("x", .bool false)]), .setVar ⟨0, 0⟩ "x" (.bool true)]
    let place : Position := ⟨0, 1, 1⟩
    let body : Body := .nodes [.element ⟨"rect", [], ⟨place, place⟩, 0⟩ []]
    let cursor : Cursor := ⟨⟨3, 0⟩, ⟨0, 0⟩, none, .svg⟩
    ∃ rs e rs' e', host.start.NamingRuns ops rs e ∧
      (∃ data, e.element? ⟨5, 0⟩ = some data ∧ data.tag = "foreignObject" ∧ data.ns = .html ∧
        data.ns = Namespace.below (e.namespaceAbove ⟨5, 0⟩) data.tag) ∧
      host.start.NamingRuns (ops ++ [.build body cursor]) rs' e' ∧ e'.Joined ⟨7, 0⟩ ∧
      ∃ data, e'.element? ⟨7, 0⟩ = some data ∧ data.tag = "rect" ∧ data.ns = .svg ∧
        data.ns = Namespace.below (e'.namespaceAbove ⟨7, 0⟩) data.tag := by
  intro host ops place body cursor
  have hrun : (host.start.runAt 9 ops).any (fun p =>
      p.1.all (·.isOk) && (p.2.entries == 0 && p.2.nodes.slots.size < UInt32.size) &&
        (p.2.element? ⟨5, 0⟩).any (fun data => data.tag == "foreignObject" && data.ns == .html) &&
          (p.2.contains ⟨3, 0⟩ && p.2.namespaceAt ⟨3, 0⟩ == .svg) &&
            (((Operation.build body cursor).act 9).runOn p.2).any (fun q =>
              q.2.nodes.slots.size < UInt32.size &&
                ((q.2.node? ⟨7, 0⟩).bind (·.parent) == some ⟨3, 0⟩ &&
                  (q.2.element? ⟨3, 0⟩).isSome) &&
                  (q.2.element? ⟨7, 0⟩).any (fun data => data.tag == "rect" && data.ns == .svg))) =
        true := by
    decide +kernel
  obtain ⟨⟨rs, e⟩, hrun, h⟩ := (Option.any_eq_true _ _).1 hrun
  simp only [Bool.and_eq_true, Option.any_eq_true, List.all_eq_true, beq_iff_eq,
    decide_eq_true_eq] at h
  obtain ⟨⟨⟨⟨hok, hentries, hroom⟩, data, hdata, htag, hns⟩, hlive, hat⟩, ⟨r, e'⟩, hbuilt,
    ⟨hroom', hparent, hsome⟩, data', hdata', htag', hns'⟩ := h
  have hops : ∀ op ∈ ops, op.builds = false := by decide
  have hnaming := (runs_of_runAt hrun).naming hops
  have hlonger : host.start.NamingRuns (ops ++ [.build body cursor]) (rs ++ [r]) e' :=
    hnaming.append (.cons (.inr ⟨hlive, hat.symm⟩) hbuilt (.nil e'))
  obtain ⟨above, habove⟩ := Option.isSome_iff_exists.1 hsome
  have hjoined := joined_of_element hparent habove
  refine ⟨rs, e, rs ++ [r], e', hnaming, ⟨data, hdata, htag, hns, ?_⟩, hlonger, hjoined, data',
    hdata', htag', hns', (NamingRuns.namespaces hlonger hroom').1 _ _ hdata' hjoined⟩
  exact (NamingRuns.namespaces hnaming hroom).2 hops (fun r hr => exists_ok (hok r hr)) hentries _ _
    hdata

/-- A host that builds under an element of documents, and names the namespace of graphics, gets an
element of graphics there. -/
theorem Runs.named_otherwise :
    let host : Host :=
      { library := { registry := { sources := .ofList [("Main", "<div></div>")] } } }
    let place : Position := ⟨0, 1, 1⟩
    let body : Body := .nodes [.element ⟨"b", [], ⟨place, place⟩, 0⟩ []]
    ∃ rs e data, host.start.Runs
        [.mount "Main" (.ofList []), .build body ⟨⟨1, 0⟩, ⟨0, 0⟩, none, .svg⟩] rs e ∧
      (∀ r ∈ rs, ∃ outcome, r = .ok outcome) ∧ e.entries = 0 ∧ e.nodes.Roomy ∧
      e.element? ⟨2, 0⟩ = some data ∧
        data.ns ≠ Namespace.below (e.namespaceAbove ⟨2, 0⟩) data.tag := by
  intro host place body
  have hrun : (host.start.runAt 9
      [.mount "Main" (.ofList []), .build body ⟨⟨1, 0⟩, ⟨0, 0⟩, none, .svg⟩]).any (fun p =>
        p.1.all (·.isOk) && (p.2.entries == 0 && p.2.nodes.slots.size < UInt32.size) &&
          (p.2.element? ⟨2, 0⟩).any (fun data =>
            data.ns != Namespace.below (p.2.namespaceAbove ⟨2, 0⟩) data.tag)) = true := by
    decide +kernel
  obtain ⟨⟨rs, e⟩, hrun, h⟩ := (Option.any_eq_true _ _).1 hrun
  simp only [Bool.and_eq_true, Option.any_eq_true, List.all_eq_true, beq_iff_eq, bne_iff_ne,
    decide_eq_true_eq] at h
  obtain ⟨⟨hok, hentries, hroom⟩, data, hdata, hne⟩ := h
  exact ⟨rs, e, data, runs_of_runAt hrun, fun r hr => exists_ok (hok r hr), hentries, hroom, hdata,
    hne⟩

end Engine
end ReactiveView
