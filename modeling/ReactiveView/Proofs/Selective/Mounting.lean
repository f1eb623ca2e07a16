import ReactiveView.Proofs.Selective.Following

/-!
# Mounting

A selective component is put at the root of a new engine: the root is the first node, and its body is
built there. Then the component is shown with the variables that it was given (`Engine.Shows`): the
tree is laid out, every node shows what is found from where it is, and no write waits for its readers
(`mount_yields`). When a variable of the root is written, the component is shown with the variables
after the write (`setVar_shows`).
-/

namespace ReactiveView

/-! ## Variables that are given -/

/-- Whether a value is plain data: no node and no function is in it. -/
def Value.isPlain (v : Value) : Bool := v.inert && !v.isCallable

/-- What a plain value is not. -/
theorem Value.of_isPlain {v : Value} (h : v.isPlain = true) : v.inert = true ∧ v.isCallable = false := by
  unfold isPlain at h
  rwa [Bool.and_eq_true, Bool.not_eq_true'] at h

namespace Scope

/-- All variables are plain data. -/
def Plain (scope : Scope) : Prop := ∀ ⦃x v⦄, scope.get? x = some v → v.isPlain = true

/-- Variables are plain if their values are. -/
theorem plain_of_entries {scope : Scope} (h : ∀ p ∈ scope.entries, p.2.isPlain = true) :
    scope.Plain := by
  intro x v hv
  obtain ⟨entries⟩ := scope
  exact h (x, v) (OrderedMap.mem_of_find? hv)

/-- A write of a plain value keeps variables plain. -/
theorem Plain.write {scope : Scope} (h : scope.Plain) (name : String) {v : Value}
    (hv : v.isPlain = true) : (scope.write name v).Plain := by
  intro x w hw
  by_cases hx : x = name
  · subst hx
    have hwritten : scope.write x v = scope ∨ scope.write x v = scope.insert x v := by
      unfold Scope.write write?
      split
      · split
        · exact .inl rfl
        · exact .inr rfl
      · exact .inr rfl
    rcases hwritten with heq | heq
    · exact h (heq ▸ hw)
    · rw [heq, OrderedMap.get?_insert_self, Option.some.injEq] at hw
      exact hw ▸ hv
  · exact h ((get?_write_of_ne scope hx v).symm.trans hw)

end Scope

namespace Host

/-- What is seen at the top of a component that has certain variables. -/
def outlook (host : Host) (component : String) (scope : Scope) : Outlook :=
  ⟨.ofScope scope, host.translator, host.assets, component⟩

/-- The outlook is quiet if the variables are plain and no text asks to stop. -/
theorem quiet_outlook {host : Host} (hsteady : host.translator.cancelOn = none) (component : String)
    {scope : Scope} (h : scope.Plain) : (host.outlook component scope).Quiet :=
  ⟨Vars.inert_ofScope fun _ _ hv => (Value.of_isPlain (h hv)).1, hsteady⟩

end Host

/-- If an operation succeeds, its errors need not be caught. -/
theorem Act.yields_tryCatch {α : Type} {x : Act α} {f : EngineError → Act α} {e : Engine}
    {Q : α → Engine → Prop} (hx : x.Yields e Q) (hf : ∀ err, (f err).Keeps fun e => ¬e.nodes.Roomy) :
    Act.Yields (tryCatch x f) e Q := by
  intro r e' hgives hroom
  rcases gives_tryCatch.1 hgives with ⟨a, h, rfl⟩ | ⟨err, e₁, h, hafter⟩
  · exact hx h hroom
  · obtain ⟨a, ha, -⟩ := hx h ((hf err).roomy hafter hroom)
    cases ha

namespace Engine

variable {e e' e₁ : Engine} {root : NodeId} {b : Body} {Start : Outlook → Prop} {scope : Scope}
  {routine : Routine} {host : Host} {name : String}

/-! ## The first node -/

/-- The root of a component that has certain variables, before anything is built below it. -/
def firstNode (routine : Routine) (scope : Scope) : RenderNode where
  kind := .context { name := routine.name, routine := routine, scope := scope }
  parent := none
  context := ⟨0, 0⟩
  flags := { reportable := true }

/-- The root is the first node of an engine, and the only one. -/
theorem addRoot_empty (hnodes : e.nodes = .empty) (routine : Routine) (scope : Scope) :
    (e.addRoot routine scope).1 = ⟨0, 0⟩ ∧ ∀ x, (e.addRoot routine scope).2.node? x =
      if x = ⟨0, 0⟩ then some (firstNode routine scope) else none := by
  have hroom : (Arena.empty : Arena RenderNode).Roomy := by
    unfold Arena.Roomy
    decide
  have hid : ((Arena.empty : Arena RenderNode).insert (firstNode routine scope)).1 = ⟨0, 0⟩ := rfl
  unfold addRoot
  rw [hnodes]
  refine ⟨hid, fun x => ?_⟩
  change ((Arena.empty.insert (firstNode routine scope)).2.modify ⟨0, 0⟩ _).get? x = _
  rw [Arena.get?_modify, Arena.get?_insert Arena.valid_empty hroom,
    Arena.get?_insert Arena.valid_empty hroom, hid, Arena.get?_empty, if_pos rfl]
  split
  · rfl
  · rfl

/-- What is set up when a component has become the root. -/
theorem setup_addRoot (hnodes : e.nodes = .empty) (routine : Routine) (scope : Scope) :
    (e.addRoot routine scope).2.setup = { e.setup with root := some ⟨0, 0⟩ } :=
  congrArg (fun id => { e.setup with root := some id }) (addRoot_empty hnodes routine scope).1

section

variable (hroot : e.node? root = some (firstNode routine scope))
include hroot

/-- The data of the root. -/
theorem context?_firstNode :
    e.context? root = some { name := routine.name, routine := routine, scope := scope } := by
  unfold context?
  rw [hroot]
  rfl

/-- The variables of the root. -/
theorem scopeOf_firstNode : e.scopeOf root = some scope := by
  unfold scopeOf
  rw [context?_firstNode hroot]
  rfl

/-- The name of the root. -/
theorem contextName_firstNode : e.contextName root = routine.name := by
  unfold contextName
  rw [context?_firstNode hroot]
  rfl

end

/-- The first node is a tree, below which the body is to be built. -/
theorem laid_addRoot (hnodes : e.nodes = .empty) (hframes : e.frames = {}) (hcancel : e.cancel = {})
    (hplain : scope.Plain) (he₁ : e₁ = (e.addRoot routine scope).2)
    (hstart : Start (e₁.outlook ⟨0, 0⟩ none)) :
    ∃ g, e₁.Laid b Start ⟨0, 0⟩ g (· = ⟨0, 0⟩) fun _ => False := by
  have hnode : ∀ x, e₁.node? x = _ := he₁ ▸ (addRoot_empty hnodes routine scope).2
  have hself : e₁.node? ⟨0, 0⟩ = some (firstNode routine scope) := by rw [hnode, if_pos rfl]
  have honly {x : NodeId} {n : RenderNode} (hn : e₁.node? x = some n) : x = ⟨0, 0⟩ := by
    by_contra hx
    rw [hnode, if_neg hx] at hn
    cases hn
  have hvalid : e.nodes.Valid := hnodes ▸ Arena.valid_empty
  refine ⟨⟨fun _ => ⟨.fragment b, [], none⟩, fun _ => ⟨0, 0⟩⟩, ?_⟩
  -- the root is the only node and it is busy, so all that is said of other nodes holds
  exact {
    valid := he₁ ▸ (hvalid.insert _).modify _ _
    tree := by
      refine .single (shape_of_node? hself) (fun x hx => ?_) rfl rfl rfl rfl
      rw [← node?_eq_none, hnode, if_neg hx]
    live_root := contains_iff.2 ⟨_, hself⟩
    ordered := by
      rw [show e₁.frames = e.frames from he₁ ▸ rfl, hframes]
      exact FrameStore.ordered_empty
    cancel := he₁ ▸ hcancel
    start := hstart
    plain := fun name v hv => by
      rw [scopeOf_firstNode hself] at hv
      exact (Value.of_isPlain (hplain hv)).2
    top := rfl
    homes := fun f fr hf => by
      rw [show e₁.frames = e.frames from he₁ ▸ rfl, hframes] at hf
      cases hf
    placed := fun x n hn hx => absurd (honly hn) hx
    settled := fun x n hn hx => absurd (honly hn) hx }

/-! ## Showing a component -/

/-- A component is shown with certain variables. The tree is laid out, every node shows what is found
from where it is, and nothing is left to do. -/
structure Shows (e : Engine) (host : Host) (routine : Routine) (Start : Outlook → Prop)
    (scope : Scope) (root : NodeId) : Prop where
  /-- The tree. -/
  laid : ∃ g, e.Laid routine.body Start root g (fun _ => False) fun _ => False
  /-- The variables. -/
  scope : e.scopeOf root = some scope
  /-- The component. -/
  component : e.contextName root = routine.name
  /-- What the host has set up. -/
  setup : ∃ library, e.setup = { host.start.setup with library := library, root := some root }

/-- What is seen at the top of a component instance. -/
theorem outlook_top (hscope : e.scopeOf root = some scope)
    (hcomponent : e.contextName root = routine.name) (htranslator : e.translator = host.translator)
    (hassets : e.assets = host.assets) :
    e.outlook root none = host.outlook routine.name scope := by
  unfold outlook Host.outlook vars Vars.ofScope
  rw [hscope, hcomponent, htranslator, hassets]
  simp only [FrameStore.lookup?_none, Option.none_or, Option.bind_some]

/-- A component that is shown sees its variables. -/
theorem Shows.outlook (h : e.Shows host routine Start scope root) :
    e.outlook root none = host.outlook routine.name scope := by
  obtain ⟨library, hsetup⟩ := h.setup
  exact outlook_top h.scope h.component (congrArg Setup.translator hsetup)
    (congrArg Setup.assets hsetup)

end Engine

namespace Render

open Engine

variable {re : Reentry} {e e' : Engine} {g : Plan} {root : NodeId} {Start : Outlook → Prop}
  {scope : Scope} {routine : Routine} {host : Host} {name : String}

/-- The body of a component is built below its root. -/
theorem runRoutine_yields (hre : re.Lays routine.body Start root) (ns : Namespace)
    (h : e.Laid routine.body Start root g (· = root) fun _ => False)
    (hroot : e.node? root = some (firstNode routine scope)) :
    (runRoutine re root ns).Yields e fun _ e' => ∃ g',
      e'.Laid routine.body Start root g' (fun _ => False) (fun _ => False) ∧ e'.setup = e.setup ∧
        e'.scopeOf root = some scope ∧ e'.contextName root = routine.name := by
  refine Act.yields_read_bind.2 ?_
  rw [context?_firstNode hroot]
  dsimp only
  have hadmits : e.Admits routine.body Start root g (· = root) (fun _ => False)
      { parent := root, ctx := root, ns := ns } routine.body.steps :=
    ⟨h, rfl, h.live_root, rfl, .inl (by rw [h.top]), fun _ hs => .top h.start hs⟩
  refine Act.yields_bind (hre.build hadmits) (fun _ => callOwnHook_keeps roomy_stable.evaluation.tracking
    (hre.operates.enters roomy_stable.closed) root _ _ _) fun _ e₁ hbuilt => ?_
  obtain ⟨g₁, ids, hlaid, hadds, hrow⟩ := hbuilt
  -- without functions nothing is called after the body
  refine (callOwnHook_yields hlaid _ _ _).imp fun _ e₂ he₂ => ?_
  subst he₂
  have hcontext := hadds.evolves.context? h.live_root hlaid.live_root
  refine ⟨g₁, hlaid.close fun x n hn _ hwhy => ?_, hadds.evolves.setup, ?_, ?_⟩
  · -- only the root was busy, and its children are those that were built
    obtain rfl : x = root := hwhy.elim id fun hstale => hstale.1.elim
    obtain ⟨n', hn', hsame⟩ := hadds.children hroot
    obtain rfl := Option.some.inj (hn.symm.trans hn')
    have hchildren : n.children = ids := congrArg (·.children) hsame
    unfold Settled
    dsimp only
    rw [hlaid.top]
    refine ⟨.none, .top ?_, fun _ => ⟨rfl, fun _ hx => absurd hx List.not_mem_nil⟩⟩
    rw [hlaid.top, hchildren]
    exact hrow
  · rw [scopeOf_congr hcontext, scopeOf_firstNode hroot]
  · rw [contextName_congr hcontext, contextName_firstNode hroot]

end Render

namespace Engine

open Render

variable {e e' : Engine} {root : NodeId} {Start : Outlook → Prop} {scope : Scope} {routine : Routine}
  {host : Host} {name : String}

/-- When a component is mounted in a new engine, its root is the first node, and it is shown with the
variables that were given. -/
theorem mount_yields (hb : routine.body.Suits Start) (depth : Nat)
    (hfound : (host.library.resolve name).1 = some routine) (hcancel : host.cancel = {})
    (hplain : scope.Plain) (hstart : Start (host.outlook routine.name scope)) :
    (mount depth name scope).Yields host.start fun id e' =>
      id = ⟨0, 0⟩ ∧ e'.Shows host routine Start scope id := by
  have hre := Reentry.within_lays hb ⟨0, 0⟩ depth
  refine Act.yields_step_bind.2 ?_
  obtain ⟨e, he⟩ : ∃ e, e = { host.start with library := (host.library.resolve name).2 } := ⟨_, rfl⟩
  rw [show host.start.library = host.library from rfl]
  dsimp only
  rw [hfound, ← he]
  refine Act.yields_read_bind.2 ?_
  rw [show e.root = none from he ▸ rfl]
  refine Act.yields_step_bind.2 ?_
  have hnodes : e.nodes = .empty := he ▸ rfl
  obtain ⟨hid, hnode⟩ := addRoot_empty hnodes routine scope
  have hsetup := setup_addRoot hnodes routine scope
  rw [hid]
  obtain ⟨e₁, he₁⟩ : ∃ e₁, e₁ = (e.addRoot routine scope).2 := ⟨_, rfl⟩
  rw [← he₁] at hnode hsetup ⊢
  have hroot : e₁.node? ⟨0, 0⟩ = some (firstNode routine scope) := by rw [hnode, if_pos rfl]
  have hset : e₁.setup = { host.start.setup with
      library := (host.library.resolve name).2, root := some ⟨0, 0⟩ } := by rw [hsetup, he]; rfl
  have hout := outlook_top (scopeOf_firstNode hroot) (contextName_firstNode hroot)
    (congrArg Setup.translator hset) (congrArg Setup.assets hset)
  obtain ⟨g, hlaid⟩ := laid_addRoot (b := routine.body) hnodes (he ▸ rfl) (he ▸ hcancel) hplain he₁
    (hout ▸ hstart)
  have hwild (id : NodeId) := batchChange_keeps roomy_stable.closed hre.operates fun _ he =>
    roomy_stable.closed.removeNode id he
  refine Act.yields_bind (Act.yields_tryCatch (batch_yields hre.operates
    (runRoutine_yields hre .html hlaid hroot) fun _ e₂ hdone => ?_) fun err => ?_)
    (fun _ => Act.keeps_pure _) fun _ e₃ hdone => Act.yields_pure ⟨rfl, hdone⟩
  · obtain ⟨g', hlaid', hset', hscope', hname'⟩ := hdone
    -- building writes no variable, so there is nothing to follow up
    have hidle : e₂.pending = .empty := congrArg Setup.pending (hset'.trans hset)
    refine (flush_idle hidle _ _).imp fun _ e₃ he₃ => ?_
    subst he₃
    exact ⟨⟨g', hlaid'⟩, hscope', hname', _, hset'.trans hset⟩
  · refine Act.keeps_bind (hwild _) fun _ => ?_
    exact Act.keeps_bind (Act.keeps_change fun _ h => h) fun _ => Act.keeps_throw _

/-- When a variable of the root is written, the component is shown with the variables after that. -/
theorem setVar_shows (hb : routine.body.Suits Start) (depth : Nat)
    (h : e.Shows host routine Start scope root) (hbooked : e.Booked)
    (hlimit : 1 ≤ host.options.maxUpdateDepth) {v : Value} (hplain : (scope.write name v).Plain)
    (hstart : Start (host.outlook routine.name (scope.write name v))) :
    (setVar depth root name v).Yields e fun _ e' =>
      e'.Shows host routine Start (scope.write name v) root := by
  obtain ⟨g, hlaid⟩ := h.laid
  obtain ⟨library, hsetup⟩ := h.setup
  have hoptions : e.options = host.options := congrArg Setup.options hsetup
  obtain ⟨data, hdata, hscope⟩ := Option.map_eq_some_iff.1 h.scope
  -- what is seen at the top after the write, before it is followed up
  have hr := Rescoped.writeVar hlaid.valid hdata name v
  have hwritten : (e.writeVar root name v).scopeOf root = some (scope.write name v) :=
    hscope ▸ scopeOf_writeVar hdata name v
  have hout : (e.writeVar root name v).outlook root none =
      host.outlook routine.name (scope.write name v) :=
    outlook_top hwritten (hr.component.trans h.component)
      ((hr.setup_eq (·.translator) fun _ => rfl).trans (congrArg Setup.translator hsetup))
      ((hr.setup_eq (·.assets) fun _ => rfl).trans (congrArg Setup.assets hsetup))
  refine (setVar_yields hb depth hlaid hbooked (congrArg Setup.pending hsetup)
    (congrArg Setup.entries hsetup) (hoptions ▸ hlimit) (hout ▸ hstart) ?_).imp fun _ e' hdone => ?_
  · intro x w hw
    rw [hwritten] at hw
    exact (Value.of_isPlain (hplain hw)).2
  · obtain ⟨g', hlaid', hset', hscope', hname'⟩ := hdone
    exact ⟨⟨g', hlaid'⟩, hscope'.trans hwritten, hname'.trans h.component, library, hset'.trans hsetup⟩

end Engine
end ReactiveView
