import ReactiveView.ReactiveIndex
import ReactiveView.Render.Step
import ReactiveView.Template.Tag
import ReactiveView.Tree.Arena
import ReactiveView.Tree.Element
import ReactiveView.Tree.Frame
import ReactiveView.Value.Key

/-!
# Rendered nodes

The nodes of the rendered tree. Besides what a node shows, it knows what is needed to update it: its
place in the tree, the context whose variables it reads, the frame in which it was built, and the
expressions and bodies that it comes from.
-/

namespace ReactiveView

/-- Where the next node is built. -/
structure Cursor where
  /-- The node it is put under. -/
  parent : NodeId
  /-- The context whose variables it reads. -/
  ctx : NodeId
  /-- The innermost frame around it. -/
  frame : Option FrameId := none
  /-- The namespace of the markup around it. -/
  ns : Namespace := .html

/-- Properties of a node of any kind. -/
structure NodeFlags where
  /-- Whether the consumer is told of the node. -/
  reportable : Bool := false
  /-- Whether the node was moved as it is since the last shot. -/
  rebind : Bool := false
  /-- Whether all evaluations of the node are tracked. -/
  reactive : Bool := false
deriving DecidableEq, Repr

/-- An element. -/
structure ElementData where
  /-- The tag. -/
  tag : String
  /-- The namespace of the markup. -/
  ns : Namespace
  /-- What it shows. -/
  state : ElementState := {}
  /-- The edits made by code. -/
  overlay : ElementOverlay := {}
  /-- The variable that is shown as its value, and written back. -/
  bind : Option String := none
  /-- What its attributes do. -/
  actions : List AttrAction
  /-- The expression of its text. -/
  textExpr : Option DynamicExpr := none

/-- A text node. -/
structure TextData where
  /-- The text. -/
  text : String
  /-- The expression of the text. -/
  expr : Option DynamicExpr

/-- The content that the caller of a component has for its slots. -/
structure SlotBinding where
  /-- The context of the caller. -/
  caller : NodeId
  /-- The frame of the caller. -/
  frame : Option FrameId
  /-- The content. -/
  content : SlotContent

/-- An instance of a component, and the variables that its nodes read. -/
structure ContextData where
  /-- The name of the component. -/
  name : String
  /-- What it is built by. -/
  routine : Routine
  /-- Its variables. -/
  scope : Scope := .empty
  /-- The context whose variables it has instead of its own. -/
  sharedWith : Option NodeId := none
  /-- The nodes that have read its variables. -/
  index : ReactiveIndex NodeId := .empty
  /-- Nodes by their names. -/
  refs : OrderedMap String NodeId := .empty
  /-- The content for its slots. -/
  slot : Option SlotBinding := none
  /-- The attributes of the reference that are expressions, evaluated in the caller. -/
  sources : List (String × DynamicExpr) := []
  /-- The frame of the reference. -/
  callerFrame : Option FrameId := none
  /-- Whether its code block was run. -/
  executed : Bool := false
  /-- Whether it holds styles or events of its own. -/
  restyle : Bool := false

/-- A condition. -/
structure ConditionData where
  /-- The branches. -/
  branches : List Branch
  /-- The branch that is built. -/
  selected : Option Nat := none
  /-- Whether all evaluations of its predicates are tracked. -/
  reactive : Bool

/-- The nodes built for one item of a loop. -/
structure Instance where
  /-- The frame that holds the item. -/
  frame : FrameId
  /-- The outermost nodes. -/
  nodes : List NodeId

/-- What a loop was built from. -/
inductive LoopState where
  /-- Nothing yet. -/
  | unbuilt
  /-- The items, if all instances are built anew when they change. -/
  | plain (items : List Value)
  /-- The instances by the keys of their items, in order. -/
  | keyed (instances : OrderedMap Key Instance)

/-- A loop. -/
structure LoopData where
  /-- What it repeats. -/
  spec : LoopSpec
  /-- What it was built from. -/
  state : LoopState := .unbuilt
  /-- Whether its empty case is built. -/
  showingEmpty : Bool := false

/-- Whether instances are kept when items move. -/
def LoopData.isKeyed (l : LoopData) : Bool := l.spec.identity.isSome

/-- A set. -/
structure SetData where
  /-- The name that is bound. -/
  name : String
  /-- The expression of the value. -/
  value : DynamicExpr
  /-- What the name is bound for. -/
  body : Body
  /-- The value. -/
  current : Value := .null

/-- A block that is carried to the consumer. -/
structure CarrierData where
  /-- What it is. -/
  kind : CarrierKind
  /-- Its attributes. -/
  attrs : OrderedMap String String
  /-- Its text. -/
  text : Option String
  /-- Whether it is meant for its context alone. -/
  restyle : Bool

/-- A signal. -/
structure SignalData where
  /-- The variable it waits for. -/
  key : String
  /-- The function that is called with the new value. -/
  action : String

/-- What a node is. -/
inductive RenderKind where
  /-- An element. -/
  | element (data : ElementData)
  /-- A text node. -/
  | text (data : TextData)
  /-- An instance of a component. -/
  | context (data : ContextData)
  /-- A condition. -/
  | condition (data : ConditionData)
  /-- A loop. -/
  | loop (data : LoopData)
  /-- A set. -/
  | set (data : SetData)
  /-- A block that is carried to the consumer. -/
  | carrier (data : CarrierData)
  /-- A signal. -/
  | signal (data : SignalData)

namespace RenderKind

/-- The name of a kind. -/
def name : RenderKind → String
  | element _ => "element"
  | text _ => "text"
  | context _ => "context"
  | condition _ => "condition"
  | loop _ => "loop"
  | set _ => "set"
  | carrier _ => "carrier"
  | signal _ => "signal"

/-- The tag that the consumer is told. -/
def tag : RenderKind → String
  | element data => data.tag
  | text _ => "@text"
  | context data => data.name
  | condition _ => "#if"
  | loop _ => "#for"
  | set _ => "#set"
  | carrier data => data.kind.tag
  | signal _ => "@react"

/-- The text. -/
def text? : RenderKind → Option String
  | element data => data.state.text
  | text data => some data.text
  | carrier data => data.text
  | _ => none

/-- The data of an element. -/
def element? : RenderKind → Option ElementData
  | element data => some data
  | _ => none

/-- The data of a component instance. -/
def context? : RenderKind → Option ContextData
  | context data => some data
  | _ => none

/-- Change the data of an element; other kinds stay as they are. -/
def modifyElement (f : ElementData → ElementData) : RenderKind → RenderKind
  | element data => element (f data)
  | other => other

/-- Change the data of a component instance; other kinds stay as they are. -/
def modifyContext (f : ContextData → ContextData) : RenderKind → RenderKind
  | context data => context (f data)
  | other => other

end RenderKind

/-- A node of the rendered tree. -/
structure RenderNode where
  /-- What it is. -/
  kind : RenderKind
  /-- The node that it is under. -/
  parent : Option NodeId
  /-- The nodes under it. -/
  children : List NodeId := []
  /-- The context whose variables it reads. That of a component instance is its caller; the root is
  its own. -/
  context : NodeId
  /-- Its properties. -/
  flags : NodeFlags := {}
  /-- The frame in which it was built. -/
  frame : Option FrameId := none
  /-- The name that it has in its context. -/
  refName : Option String := none
  /-- The contexts whose indices hold reads of this node. -/
  watchers : List NodeId := []

/-- Whether a node is a component instance. -/
def RenderNode.isContext (n : RenderNode) : Bool := n.kind.context?.isSome

end ReactiveView
