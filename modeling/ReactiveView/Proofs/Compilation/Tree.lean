import ReactiveView.Proofs.Compilation.Libraries
import ReactiveView.Render.Outline
import ReactiveView.Render.Session

/-!
# Trees that differ in how their bodies are run

Two engines are compared by their norms (`Engine.norm`), in which every body, routine and library
has been replaced by its norm. No operation on the tree looks into a body: what is read from an
engine is also read from its norm, and what is done to an engine can be done to its norm. There is
one lemma of this kind for each operation, named after it.
-/

namespace ReactiveView

/-! ## Norms -/

/-- A slot binding with the norms of its content. -/
noncomputable def SlotBinding.norm (s : SlotBinding) : SlotBinding :=
  { s with content := s.content.norm }

/-- The data of a component instance with the norm of its routine. -/
noncomputable def ContextData.norm (data : ContextData) : ContextData :=
  { data with routine := data.routine.norm, slot := data.slot.map SlotBinding.norm }

/-- A condition with the norms of its branches. -/
noncomputable def ConditionData.norm (data : ConditionData) : ConditionData :=
  { data with branches := data.branches.map Branch.norm }

/-- A loop with the norms of its bodies. -/
noncomputable def LoopData.norm (data : LoopData) : LoopData := { data with spec := data.spec.norm }

/-- A set with the norm of its body. -/
noncomputable def SetData.norm (data : SetData) : SetData := { data with body := data.body.norm }

namespace RenderKind

/-- What a node is, with the norms of its bodies. -/
noncomputable def norm : RenderKind → RenderKind
  | element data => element data
  | text data => text data
  | context data => context data.norm
  | condition data => condition data.norm
  | loop data => loop data.norm
  | set data => set data.norm
  | carrier data => carrier data
  | signal data => signal data

/-- What the norm of a node tells of it. -/
def SameNorm : RenderKind → RenderKind → Prop
  | element data, k => k = element data
  | text data, k => k = text data
  | context data, k => ∃ data', k = context data' ∧ data.norm = data'.norm
  | condition data, k => ∃ data', k = condition data' ∧ data.norm = data'.norm
  | loop data, k => ∃ data', k = loop data' ∧ data.norm = data'.norm
  | set data, k => ∃ data', k = set data' ∧ data.norm = data'.norm
  | carrier data, k => k = carrier data
  | signal data, k => k = signal data

/-- Kinds with one norm are of one constructor. -/
theorem sameNorm {k k' : RenderKind} (h : k.norm = k'.norm) : k.SameNorm k' := by
  cases k <;> cases k' <;> simp_all [norm, SameNorm]

/-- The data of an element. -/
@[simp] theorem element?_norm (k : RenderKind) : k.norm.element? = k.element? := by
  cases k <;> rfl

/-- The data of a component instance. -/
@[simp] theorem context?_norm (k : RenderKind) :
    k.norm.context? = k.context?.map ContextData.norm := by
  cases k <;> rfl

/-- The tag. -/
@[simp] theorem tag_norm (k : RenderKind) : k.norm.tag = k.tag := by cases k <;> rfl

/-- The name. -/
@[simp] theorem name_norm (k : RenderKind) : k.norm.name = k.name := by cases k <;> rfl

/-- The text. -/
@[simp] theorem text?_norm (k : RenderKind) : k.norm.text? = k.text? := by cases k <;> rfl

/-- The line of an outline. -/
@[simp] theorem outline_norm (k : RenderKind) : k.norm.outline = k.outline := by
  cases k <;> rfl

/-- Changing an element. -/
@[simp] theorem modifyElement_norm (k : RenderKind) (f : ElementData → ElementData) :
    k.norm.modifyElement f = (k.modifyElement f).norm := by
  cases k <;> rfl

/-- Changing a component instance. -/
theorem modifyContext_norm {f : ContextData → ContextData} (hf : ∀ data, f data.norm = (f data).norm)
    (k : RenderKind) : k.norm.modifyContext f = (k.modifyContext f).norm := by
  cases k with
  | context data => simp only [norm, modifyContext, hf]
  | _ => rfl

end RenderKind

/-- A node with the norms of its bodies. -/
noncomputable def RenderNode.norm (n : RenderNode) : RenderNode := { n with kind := n.kind.norm }

namespace RenderNode

variable (n : RenderNode)

@[simp] theorem kind_norm : n.norm.kind = n.kind.norm := rfl
@[simp] theorem parent_norm : n.norm.parent = n.parent := rfl
@[simp] theorem children_norm : n.norm.children = n.children := rfl
@[simp] theorem context_norm : n.norm.context = n.context := rfl
@[simp] theorem flags_norm : n.norm.flags = n.flags := rfl
@[simp] theorem frame_norm : n.norm.frame = n.frame := rfl
@[simp] theorem refName_norm : n.norm.refName = n.refName := rfl
@[simp] theorem watchers_norm : n.norm.watchers = n.watchers := rfl

end RenderNode

/-- Whether a node is a component instance. -/
@[simp] theorem RenderNode.isContext_norm (n : RenderNode) : n.norm.isContext = n.isContext := by
  simp only [isContext, kind_norm, RenderKind.context?_norm, Option.isSome_map]

namespace Arena

variable {α β : Type}

/-- Change every tenant. -/
def map (f : α → β) (a : Arena α) : Arena β where
  slots := a.slots.map fun s => ⟨s.generation, s.value.map f⟩
  free := a.free
  size := a.size

/-- The tenant of an identity after all were changed. -/
@[simp] theorem get?_map (f : α → β) (a : Arena α) (id : NodeId) :
    (a.map f).get? id = (a.get? id).map f := by
  unfold get? slot? map
  rw [Array.getElem?_map]
  cases a.slots[id.index.toNat]? with
  | none => rfl
  | some s =>
    simp only [Option.map_some, Option.filter_some]
    split <;> rfl

/-- The live identities after all tenants were changed. -/
@[simp] theorem contains_map (f : α → β) (a : Arena α) (id : NodeId) :
    (a.map f).contains id = a.contains id := by
  simp only [contains, get?_map, Option.isSome_map]

/-- Adding a tenant. -/
@[simp] theorem insert_map (f : α → β) (a : Arena α) (v : α) :
    (a.map f).insert (f v) = ((a.insert v).1, (a.insert v).2.map f) := by
  unfold insert
  split
  · rename_i index free hfree
    have hfree' : a.free = index :: free := hfree
    simp only [hfree', map, Array.getElem?_map, Option.map_map, Function.comp_def,
      Array.map_setIfInBounds, Option.map_some]
  · rename_i hfree
    have hfree' : a.free = [] := hfree
    simp only [hfree', map, Array.size_map, Array.map_push, Option.map_some]

/-- Removing a tenant. -/
@[simp] theorem remove_map (f : α → β) (a : Arena α) (id : NodeId) :
    (a.map f).remove id = ((a.remove id).1.map f, (a.remove id).2.map f) := by
  unfold remove
  rw [get?_map]
  cases a.get? id with
  | none => rfl
  | some v =>
    simp only [Option.map_some]
    split <;> simp only [map, Array.map_setIfInBounds, Option.map_none, Option.map_some]

/-- Changing a tenant, before or after all were changed. -/
theorem modify_map_of {f : α → β} {g : α → α} {g' : β → β} (hg : ∀ v, g' (f v) = f (g v))
    (a : Arena α) (id : NodeId) : (a.map f).modify id g' = (a.modify id g).map f := by
  have hslot : ((a.map f).slot? id).isSome = (a.slot? id).isSome := by
    unfold slot? map
    rw [Array.getElem?_map]
    cases a.slots[id.index.toNat]? with
    | none => rfl
    | some s =>
      simp only [Option.map_some, Option.filter_some]
      split <;> rfl
  unfold modify
  cases hs : a.slot? id with
  | none =>
    rw [hs, Option.isSome_none, Option.isSome_eq_false_iff, Option.isNone_iff_eq_none] at hslot
    rw [hslot]
  | some s =>
    rw [hs, Option.isSome_some, Option.isSome_iff_exists] at hslot
    obtain ⟨s', hs'⟩ := hslot
    rw [hs']
    simp only [map]
    congr 1
    refine Array.ext_getElem? fun i => ?_
    simp only [Array.getElem?_modify, Array.getElem?_map]
    split
    · cases a.slots[i]? with
      | none => rfl
      | some s => simp [Function.comp_def, hg]
    · rfl

/-- Changing a tenant. -/
theorem modify_map {f g : α → α} (hg : ∀ v, g (f v) = f (g v)) (a : Arena α) (id : NodeId) :
    (a.map f).modify id g = (a.modify id g).map f := modify_map_of hg a id

end Arena

namespace Engine

/-- An engine in which every body, routine and library has been replaced by its norm. -/
noncomputable def norm (e : Engine) : Engine :=
  { e with nodes := e.nodes.map RenderNode.norm, library := e.library.norm }

variable (e : Engine)

@[simp] theorem frames_norm : e.norm.frames = e.frames := rfl
@[simp] theorem shot_norm : e.norm.shot = e.shot := rfl
@[simp] theorem options_norm : e.norm.options = e.options := rfl
@[simp] theorem remote_norm : e.norm.remote = e.remote := rfl
@[simp] theorem cancel_norm : e.norm.cancel = e.cancel := rfl
@[simp] theorem translator_norm : e.norm.translator = e.translator := rfl
@[simp] theorem assets_norm : e.norm.assets = e.assets := rfl
@[simp] theorem diagnostics_norm : e.norm.diagnostics = e.diagnostics := rfl
@[simp] theorem root_norm : e.norm.root = e.root := rfl
@[simp] theorem pending_norm : e.norm.pending = e.pending := rfl
@[simp] theorem serial_norm : e.norm.serial = e.serial := rfl
@[simp] theorem chainBound_norm : e.norm.chainBound = e.chainBound := rfl

/-- Changes in turn. -/
theorem foldl_norm {α : Type} {f : Engine → α → Engine} (hf : ∀ e a, f e.norm a = (f e a).norm)
    (xs : List α) : ∀ e : Engine, xs.foldl f e.norm = (xs.foldl f e).norm := by
  induction xs with
  | nil => exact fun _ => rfl
  | cons x xs ih =>
    intro e
    rw [List.foldl_cons, hf, ih, List.foldl_cons]

/-! ## Nodes -/

@[simp] theorem node?_norm (id : NodeId) :
    e.norm.node? id = (e.node? id).map RenderNode.norm := Arena.get?_map _ _ id

@[simp] theorem contains_norm (id : NodeId) : e.norm.contains id = e.contains id :=
  Arena.contains_map _ _ id

@[simp] theorem context?_norm (id : NodeId) :
    e.norm.context? id = (e.context? id).map ContextData.norm := by
  simp only [context?, node?_norm]
  cases e.node? id with
  | none => rfl
  | some n => simp only [Option.map_some, Option.bind_some, RenderNode.norm,
      RenderKind.context?_norm]

@[simp] theorem element?_norm (id : NodeId) : e.norm.element? id = e.element? id := by
  simp only [element?, node?_norm]
  cases e.node? id with
  | none => rfl
  | some n => simp only [Option.map_some, Option.bind_some, RenderNode.norm,
      RenderKind.element?_norm]

@[simp] theorem nodeByOid_norm (oid : UInt64) : e.norm.nodeByOid oid = e.nodeByOid oid := by
  simp only [nodeByOid, contains_norm]

/-- Changing a node. -/
theorem modifyNode_norm {f : RenderNode → RenderNode} (hf : ∀ n, f n.norm = (f n).norm)
    (id : NodeId) : e.norm.modifyNode id f = (e.modifyNode id f).norm := by
  simp only [modifyNode, norm, Arena.modify_map hf]

/-- Changing what a node is. -/
theorem modifyKind_norm {f : RenderKind → RenderKind} (hf : ∀ k, f k.norm = (f k).norm)
    (id : NodeId) : e.norm.modifyKind id f = (e.modifyKind id f).norm :=
  e.modifyNode_norm (fun n => by simp only [RenderNode.norm, hf]) id

/-- Replacing what a node is. -/
theorem setKind_norm (kind : RenderKind) (id : NodeId) :
    (e.norm.modifyKind id fun _ => kind.norm) = (e.modifyKind id fun _ => kind).norm := by
  simp only [modifyKind, modifyNode, norm]
  rw [Arena.modify_map_of]
  exact fun _ => rfl

/-- Changing a component instance. -/
theorem modifyContext_norm {f : ContextData → ContextData}
    (hf : ∀ data, f data.norm = (f data).norm) (id : NodeId) :
    e.norm.modifyContext id f = (e.modifyContext id f).norm :=
  e.modifyKind_norm (RenderKind.modifyContext_norm hf) id

@[simp] theorem modifyElement_norm (id : NodeId) (f : ElementData → ElementData) :
    e.norm.modifyElement id f = (e.modifyElement id f).norm :=
  e.modifyKind_norm (fun k => k.modifyElement_norm f) id

theorem ancestorsIn_norm (length : Nat) : ∀ id : NodeId,
    e.norm.ancestorsIn length id = e.ancestorsIn length id := by
  induction length with
  | zero => exact fun _ => rfl
  | succ length ih =>
    intro id
    simp only [ancestorsIn, node?_norm]
    cases e.node? id with
    | none => rfl
    | some n => simp only [Option.map_some, Option.bind_some, RenderNode.norm, ih]

@[simp] theorem ancestors_norm (id : NodeId) : e.norm.ancestors id = e.ancestors id :=
  e.ancestorsIn_norm _ id

@[simp] theorem isReportable_norm (id : NodeId) :
    e.norm.isReportable id = e.isReportable id := by
  simp only [isReportable, node?_norm, Option.any_map]
  rfl

@[simp] theorem reportableAncestor?_norm (id : NodeId) :
    e.norm.reportableAncestor? id = e.reportableAncestor? id := by
  simp only [reportableAncestor?, ancestors_norm, funext e.isReportable_norm]

@[simp] theorem namespaceAt_norm (id : NodeId) : e.norm.namespaceAt id = e.namespaceAt id := by
  simp only [namespaceAt, ancestors_norm, element?_norm]

theorem subtreeIn_norm (depth : Nat) : ∀ id : NodeId,
    e.norm.subtreeIn depth id = e.subtreeIn depth id := by
  induction depth with
  | zero => exact fun _ => rfl
  | succ depth ih =>
    intro id
    simp only [subtreeIn, node?_norm]
    cases e.node? id with
    | none => rfl
    | some n => simp only [Option.map_some, RenderNode.norm, funext ih]

@[simp] theorem subtree_norm (id : NodeId) : e.norm.subtree id = e.subtree id :=
  e.subtreeIn_norm _ id

/-- Adding a node. -/
theorem addNode_norm (kind : RenderKind) (cursor : Cursor) (flags : NodeFlags) :
    e.norm.addNode kind.norm cursor flags =
      ((e.addNode kind cursor flags).1, (e.addNode kind cursor flags).2.norm) := by
  have hinsert : e.norm.nodes.insert
      { kind := kind.norm, parent := some cursor.parent, context := cursor.ctx, flags := flags,
        frame := cursor.frame } = _ :=
    Arena.insert_map RenderNode.norm e.nodes
      { kind := kind, parent := some cursor.parent, context := cursor.ctx, flags := flags,
        frame := cursor.frame }
  unfold addNode
  simp only [hinsert, modifyNode]
  rw [Arena.modify_map]
  · split <;> rfl
  · exact fun _ => rfl

@[simp] theorem report_norm (id : NodeId) : e.norm.report id = (e.report id).norm := by
  simp only [report, isReportable_norm]
  split <;> rfl

/-! ## Contexts and variables -/

@[simp] theorem owningContext_norm (id : NodeId) :
    e.norm.owningContext id = e.owningContext id := by
  simp only [owningContext, node?_norm]
  cases e.node? id with
  | none => rfl
  | some n => simp only [Option.map_some, RenderNode.isContext_norm, RenderNode.context_norm]

@[simp] theorem scopeOwner_norm (ctx : NodeId) : e.norm.scopeOwner ctx = e.scopeOwner ctx := by
  simp only [scopeOwner, context?_norm]
  cases e.context? ctx <;> rfl

@[simp] theorem scopeOf_norm (ctx : NodeId) : e.norm.scopeOf ctx = e.scopeOf ctx := by
  simp only [scopeOf, context?_norm]
  cases e.context? ctx <;> rfl

@[simp] theorem contextName_norm (ctx : NodeId) : e.norm.contextName ctx = e.contextName ctx := by
  simp only [contextName, context?_norm]
  cases e.context? ctx <;> rfl

theorem callersIn_norm (length : Nat) : ∀ ctx : NodeId,
    e.norm.callersIn length ctx = e.callersIn length ctx := by
  induction length with
  | zero => exact fun _ => rfl
  | succ length ih =>
    intro ctx
    simp only [callersIn, node?_norm]
    cases e.node? ctx with
    | none => rfl
    | some n => simp only [Option.map_some, RenderNode.norm, ih]

@[simp] theorem findVar_norm (ctx : NodeId) (name : String) :
    e.norm.findVar ctx name = e.findVar ctx name := by
  simp only [findVar, callers, chainBound_norm, callersIn_norm, scopeOwner_norm, scopeOf_norm]

@[simp] theorem getVar_norm (ctx : NodeId) (name : String) :
    e.norm.getVar ctx name = e.getVar ctx name := by
  simp only [getVar, findVar_norm]

@[simp] theorem ownFunction_norm (ctx : NodeId) (name : String) :
    e.norm.ownFunction ctx name = e.ownFunction ctx name := by
  simp only [ownFunction, scopeOwner_norm, scopeOf_norm]

@[simp] theorem refsValue_norm (ctx : NodeId) : e.norm.refsValue ctx = e.refsValue ctx := by
  simp only [refsValue, context?_norm, contains_norm]
  cases e.context? ctx <;> rfl

@[simp] theorem track_norm (owner : NodeId) (name : String) (node : NodeId) :
    e.norm.track owner name node = (e.track owner name node).norm := by
  simp only [track, context?_norm, Option.isSome_map]
  split
  · rw [modifyContext_norm, modifyNode_norm]
    · intro n
      by_cases hw : n.watchers.contains owner = true
      · rw [if_pos hw, if_pos (by exact hw)]
      · rw [if_neg hw, if_neg (by exact hw)]
        rfl
    · exact fun _ => rfl
  · rfl

@[simp] theorem purge_norm (id : NodeId) : e.norm.purge id = (e.purge id).norm := by
  simp only [purge, node?_norm]
  cases e.node? id with
  | none => rfl
  | some n =>
    simp only [Option.map_some, RenderNode.watchers_norm]
    rw [modifyNode_norm, foldl_norm]
    · intro e owner
      rw [modifyContext_norm]
      exact fun _ => rfl
    · exact fun _ => rfl

@[simp] theorem writeVar_norm (owner : NodeId) (name : String) (v : Value) :
    e.norm.writeVar owner name v = (e.writeVar owner name v).norm := by
  simp only [writeVar, context?_norm]
  cases e.context? owner with
  | none => rfl
  | some data =>
    simp only [Option.map_some]
    have hscope : data.norm.scope = data.scope := rfl
    have hindex : data.norm.index = data.index := rfl
    rw [hscope, hindex]
    cases data.scope.write? name v with
    | none => rfl
    | some scope =>
      dsimp only
      rw [modifyContext_norm]
      · split <;> rfl
      · exact fun _ => rfl

@[simp] theorem initVar_norm (owner : NodeId) (name : String) (v : Value) :
    e.norm.initVar owner name v = (e.initVar owner name v).norm := by
  unfold initVar
  rw [modifyContext_norm]
  exact fun _ => rfl

@[simp] theorem bindRef_norm (ctx : NodeId) (name : String) (id : NodeId) :
    e.norm.bindRef ctx name id = (e.bindRef ctx name id).norm := by
  simp only [bindRef]
  rw [modifyContext_norm, modifyNode_norm]
  · exact fun _ => rfl
  · exact fun _ => rfl

/-! ## The consumer and the host -/

@[simp] theorem diagnose_norm (ctx : NodeId) (node : Option NodeId) (message : String)
    (line : Option Nat) :
    e.norm.diagnose ctx node message line = (e.diagnose ctx node message line).norm := by
  simp only [diagnose, owningContext_norm, contextName_norm]
  rfl

@[simp] theorem request_norm (id : NodeId) (kind : RequestKind) :
    e.norm.request id kind = ((e.request id kind).1, (e.request id kind).2.norm) := by
  simp only [request, remote_norm]
  cases e.remote with
  | none => rfl
  | some r =>
    have hmessage : e.norm.requestMessage id kind = e.requestMessage id kind := by
      cases kind <;> simp only [requestMessage, element?_norm]
    simp only [hmessage]
    rfl

@[simp] theorem localizeText_norm (text : String) :
    e.norm.localizeText text = ((e.localizeText text).1, (e.localizeText text).2.norm) := by
  unfold localizeText
  rw [translator_norm]
  split
  · by_cases hc : e.translator.cancelOn = some text
    · rw [if_pos hc, if_pos hc]
      rfl
    · rw [if_neg hc, if_neg hc]
  · rfl

end Engine
end ReactiveView
