import ReactiveView.Proofs.Computation

/-!
# Quiet changes of nodes

A node has two sides that others depend on. One is its picture, that is what the consumer is shown
of it (`RenderKind.picture`). The other one is the registrations: which contexts watch it, and, if
it is a component instance, who has read its variables. A change of a node that leaves both sides
alone is quiet (`RenderNode.Quiet`); one that leaves the registrations alone is a drawing if only a
text is new (`RenderNode.Drawn`), and a new painting if other parts of the picture are
(`RenderNode.Repainted`). What no operation changes of a node is fixed (`RenderNode.Fixed`).
-/

namespace ReactiveView

/-- What an element was built from. -/
def ElementData.skeleton (data : ElementData) : ElementData :=
  { data with state := {}, overlay := {}, textExpr := none }

namespace AttrAction

/-- The class that an action switches. -/
def switch? : AttrAction → Option String
  | classSwitch name _ => some name
  | _ => none

/-- The classes that actions switch, in the order in which they are first switched. -/
def switchNames (actions : List AttrAction) : List String :=
  (OrderedSet.ofList (actions.filterMap switch?)).toList

end AttrAction

/-- In the tables of a state no key occurs twice. -/
structure ElementState.Tidy (s : ElementState) : Prop where
  /-- Each attribute is there once. -/
  attrs : s.attrs.Distinct
  /-- Each style property is there once. -/
  style : s.style.Distinct
  /-- Each piece of data is there once. -/
  data : s.data.Distinct

namespace ElementState

variable {s : ElementState}

/-- The state that shows nothing is tidy. -/
theorem tidy_empty : ({} : ElementState).Tidy :=
  ⟨List.nodup_nil, List.nodup_nil, List.nodup_nil⟩

/-- Setting an attribute keeps a state tidy. -/
theorem Tidy.setAttr (h : s.Tidy) (name text : String) : (s.setAttr name text).Tidy :=
  ⟨h.attrs.insert name text, h.style, h.data⟩

/-- Setting a style property keeps a state tidy. -/
theorem Tidy.setStyle (h : s.Tidy) (property : String) (v : Value) :
    (s.setStyle property v).Tidy := by
  unfold ElementState.setStyle
  split
  · exact ⟨h.attrs, h.style.erase _, h.data⟩
  · exact ⟨h.attrs, h.style.erase _, h.data⟩
  · exact ⟨h.attrs, h.style.insert _ _, h.data⟩

/-- Setting style properties keeps a state tidy. -/
theorem Tidy.setStyles (h : s.Tidy) (v : Value) : (s.setStyles v).Tidy := by
  unfold ElementState.setStyles
  split
  · exact ⟨h.attrs, h.style.insertAll _, h.data⟩
  · exact ⟨h.attrs, h.style.insertAll _, h.data⟩
  · exact h

/-- Setting an attribute that a false value removes keeps a state tidy. -/
theorem Tidy.setDynamic (h : s.Tidy) (name : String) (v : Value) : (s.setDynamic name v).Tidy := by
  unfold ElementState.setDynamic
  split
  · exact ⟨h.attrs, h.style, h.data⟩
  · exact ⟨h.attrs, h.style, h.data⟩
  · exact ⟨h.attrs, h.style, h.data⟩
  · split
    · exact ⟨h.attrs.erase _, h.style, h.data⟩
    · split
      · exact h.setAttr _ _
      · exact h.setAttr _ _

/-- Applying edits keeps a state tidy. -/
theorem Tidy.overlay (h : s.Tidy) (o : ElementOverlay) : (o.apply s).Tidy := by
  have hedit {table : OrderedMap String String} (ht : table.Distinct)
      (changes : List (String × Option String)) :
      (changes.foldl ElementOverlay.edit table).Distinct := by
    refine List.foldlRecOn changes _ ht fun table ht change _ => ?_
    obtain ⟨key, text⟩ := change
    cases text with
    | some text => exact ht.insert key text
    | none => exact ht.erase key
  exact ⟨hedit h.attrs _, hedit h.style _, h.data⟩

end ElementState

/-- An element shows what is computed from its actions: the classes that are switched are those that
the actions switch, in their order. -/
structure ElementState.Follows (s : ElementState) (actions : List AttrAction) : Prop extends
    s.Tidy where
  /-- The classes that are switched. -/
  switches : s.switches.keys = AttrAction.switchNames actions

/-- An edit of an element by code: it leaves what the element was built from and the classes that
attributes switch, and brings no key in twice. -/
structure ElementData.Edit (data data' : ElementData) : Prop where
  /-- What the element was built from stays. -/
  skeleton : data'.skeleton = data.skeleton
  /-- So do the classes that attributes switch. -/
  switches : data'.state.switches = data.state.switches
  /-- No key is brought in twice. -/
  tidy : data.state.Tidy → data'.state.Tidy

/-- What the consumer is shown of a node, besides its place and its marks, and what the state of an
element is computed by. -/
inductive Picture where
  /-- An element. -/
  | element (tag : String) (ns : Namespace) (actions : List AttrAction) (state : ElementState)
  /-- A text node. -/
  | text (text : String)
  /-- A component instance. -/
  | context (name : String)
  /-- A carrier. -/
  | carrier (kind : CarrierKind) (attrs : OrderedMap String String) (text : Option String)
    (restyle : Bool)
  /-- A node that only holds others. -/
  | plain (kind tag : String)

/-- The part of a picture that stays when another text is drawn. -/
def Picture.base : Picture → Picture
  | element tag ns actions state => element tag ns actions { state with text := none }
  | text _ => text ""
  | other => other

/-- The part of a picture that always stays. -/
def Picture.fixed : Picture → Picture
  | element tag ns actions _ => element tag ns actions {}
  | text _ => text ""
  | other => other

/-- What always stays is less than what drawing leaves. -/
theorem Picture.fixed_base (p : Picture) : p.base.fixed = p.fixed := by
  cases p <;> rfl

namespace RenderKind

/-- What the consumer is shown of a node. -/
def picture : RenderKind → Picture
  | element data => .element data.tag data.ns data.actions data.state
  | text data => .text data.text
  | context data => .context data.name
  | carrier data => .carrier data.kind data.attrs data.text data.restyle
  | other => .plain other.name other.tag

/-- What is an element has its data. -/
theorem eq_of_element? {kind : RenderKind} {data : ElementData} (h : kind.element? = some data) :
    kind = element data := by
  cases kind with
  | element data' => exact congrArg element (Option.some.inj h)
  | _ => cases h

/-- Who has read the variables of a component instance. -/
def index? (kind : RenderKind) : Option (ReactiveIndex NodeId) := kind.context?.map (·.index)

/-- Whether the code of a component instance was run. -/
def hasRun : RenderKind → Bool
  | context data => data.executed
  | _ => false

/-- Changing a component instance does not change the pictures of other kinds. -/
theorem picture_modifyContext {f : ContextData → ContextData}
    (hf : ∀ data, (f data).name = data.name) (kind : RenderKind) :
    (kind.modifyContext f).picture = kind.picture := by
  cases kind with
  | context data => simp only [modifyContext, picture, hf]
  | _ => rfl

/-- Changing a component instance does not change the registrations of other kinds. -/
theorem index?_modifyContext {f : ContextData → ContextData}
    (hf : ∀ data, (f data).index = data.index) (kind : RenderKind) :
    (kind.modifyContext f).index? = kind.index? := by
  cases kind with
  | context data => simp only [modifyContext, index?, context?, Option.map_some, hf]
  | _ => rfl

/-- What has no variables runs no code. -/
theorem not_hasRun {kind : RenderKind} (h : kind.index? = none) : ¬kind.hasRun = true := by
  cases kind with
  | context data => cases h
  | _ => exact nofun

/-- Changing a component instance does not make other kinds run code. -/
theorem hasRun_modifyContext {f : ContextData → ContextData}
    (hf : ∀ data, data.executed = true → (f data).executed = true) (kind : RenderKind) :
    kind.hasRun = true → (kind.modifyContext f).hasRun = true := by
  cases kind with
  | context data => exact hf data
  | _ => exact id

/-- Changing an element runs no code. -/
@[simp] theorem hasRun_modifyElement (f : ElementData → ElementData) (kind : RenderKind) :
    (kind.modifyElement f).hasRun = kind.hasRun := by
  cases kind <;> rfl

/-- Changing an element does not change registrations. -/
@[simp] theorem index?_modifyElement (f : ElementData → ElementData) (kind : RenderKind) :
    (kind.modifyElement f).index? = kind.index? := by
  cases kind <;> rfl

end RenderKind

namespace RenderNode

/-- A change of a node that leaves registrations and all of the picture but its text. -/
structure Drawn (n n' : RenderNode) : Prop where
  /-- The place stays. -/
  parent : n'.parent = n.parent
  /-- So does whether the consumer is told of the node. -/
  reportable : n'.flags.reportable = n.flags.reportable
  /-- The node is watched by the same contexts. -/
  watchers : n'.watchers = n.watchers
  /-- Its variables have the same readers. -/
  index : n'.kind.index? = n.kind.index?
  /-- The node is shown alike but for its text. -/
  base : n'.kind.picture.base = n.kind.picture.base
  /-- Code that was run stays run. -/
  hasRun : n.kind.hasRun = true → n'.kind.hasRun = true

/-- A change of a node that leaves registrations and what the consumer is shown. -/
structure Quiet (n n' : RenderNode) : Prop where
  /-- The place stays. -/
  parent : n'.parent = n.parent
  /-- So does whether the consumer is told of the node. -/
  reportable : n'.flags.reportable = n.flags.reportable
  /-- The node is watched by the same contexts. -/
  watchers : n'.watchers = n.watchers
  /-- Its variables have the same readers. -/
  index : n'.kind.index? = n.kind.index?
  /-- The node is shown alike. -/
  picture : n'.kind.picture = n.kind.picture
  /-- Code that was run stays run. -/
  hasRun : n.kind.hasRun = true → n'.kind.hasRun = true

/-- A change of a node that leaves registrations and what no operation changes. -/
structure Repainted (n n' : RenderNode) : Prop where
  /-- The place stays. -/
  parent : n'.parent = n.parent
  /-- So does whether the consumer is told of the node. -/
  reportable : n'.flags.reportable = n.flags.reportable
  /-- The node is watched by the same contexts. -/
  watchers : n'.watchers = n.watchers
  /-- Its variables have the same readers. -/
  index : n'.kind.index? = n.kind.index?
  /-- The node is of the same make. -/
  picture : n'.kind.picture.fixed = n.kind.picture.fixed

/-- A change of a node that leaves what no operation changes. -/
structure Fixed (n n' : RenderNode) : Prop where
  /-- The place stays. -/
  parent : n'.parent = n.parent
  /-- So does whether the consumer is told of the node. -/
  reportable : n'.flags.reportable = n.flags.reportable
  /-- The node is of the same make. -/
  picture : n'.kind.picture.fixed = n.kind.picture.fixed

variable {n : RenderNode}

/-- Leaving registrations and the make of a node leaves its make. -/
theorem Repainted.fixed {n' : RenderNode} (h : n.Repainted n') : n.Fixed n' :=
  ⟨h.parent, h.reportable, h.picture⟩

/-- A drawing leaves registrations and the make of a node. -/
theorem Drawn.repainted {n' : RenderNode} (h : n.Drawn n') : n.Repainted n' :=
  ⟨h.parent, h.reportable, h.watchers, h.index,
    by rw [← Picture.fixed_base, h.base, Picture.fixed_base]⟩

/-- A drawing leaves what no operation changes. -/
theorem Drawn.fixed {n' : RenderNode} (h : n.Drawn n') : n.Fixed n' := h.repainted.fixed

/-- A quiet change draws nothing new. -/
theorem Quiet.drawn {n' : RenderNode} (h : n.Quiet n') : n.Drawn n' :=
  ⟨h.parent, h.reportable, h.watchers, h.index, congrArg Picture.base h.picture, h.hasRun⟩

/-- No change is quiet. -/
theorem Quiet.refl (n : RenderNode) : n.Quiet n := ⟨rfl, rfl, rfl, rfl, rfl, fun h => h⟩

/-- A quiet change of what a node is. -/
theorem quiet_kind {kind : RenderKind} (hindex : kind.index? = n.kind.index?)
    (hpicture : kind.picture = n.kind.picture) (hrun : n.kind.hasRun = true → kind.hasRun = true) :
    n.Quiet { n with kind := kind } := ⟨rfl, rfl, rfl, hindex, hpicture, hrun⟩

/-- Changing a component instance is quiet as long as its name and its index stay, and code that was
run stays run. -/
theorem quiet_modifyContext {f : ContextData → ContextData}
    (hname : ∀ data, (f data).name = data.name) (hindex : ∀ data, (f data).index = data.index)
    (hrun : ∀ data, data.executed = true → (f data).executed = true) :
    n.Quiet { n with kind := n.kind.modifyContext f } :=
  quiet_kind (RenderKind.index?_modifyContext hindex _) (RenderKind.picture_modifyContext hname _)
    (RenderKind.hasRun_modifyContext hrun _)

end RenderNode

/-- What a node is before it is built: nothing was read of a component instance, an element shows
nothing, and a carrier has each attribute once. -/
def RenderKind.Unbuilt : RenderKind → Prop
  | element data => data.state = {}
  | context data => data.index = .empty
  | carrier data => data.attrs.Distinct
  | _ => True

/-- A node that was not in the tree before. -/
structure RenderNode.New (n : RenderNode) : Prop where
  /-- Nothing is under it. -/
  children : n.children = []
  /-- Nothing was read for it. -/
  watchers : n.watchers = []
  /-- It is not built. -/
  kind : n.kind.Unbuilt

/-- The consumer has yet to be told of a node, unless it is not told of it at all. -/
def Engine.Fresh (e : Engine) (id : NodeId) : Prop :=
  e.isReportable id = true → id ∈ e.shot.created.toList

end ReactiveView
