import ReactiveView.OrderedMap
import ReactiveView.Program.Basic

/-!
# Build steps

A body is what is built at some place of the tree: siblings of a template, or the steps of a
compiled program. Either way it comes down to the same build steps (`Body.steps`), with bodies in
them for what is built later or repeatedly, so that there is one way to build and a template behaves
alike whether it was compiled or not.
-/

namespace ReactiveView

/-- What is built at some place of the tree. -/
inductive Body where
  /-- Siblings of a template. -/
  | nodes (nodes : List Node)
  /-- Steps of a program, which has the procedures that they refer to. -/
  | ops (program : Program) (ops : List Op)

namespace Body

instance : Inhabited Body := ⟨nodes []⟩

/-- The body of a procedure, empty if the program has no such procedure. -/
def procedure (program : Program) (id : ProcId) : Body :=
  ops program (((program.procedure? id).map (·.ops)).getD [])

end Body

/-- A branch: its condition, if it has one, and its body. -/
structure Branch where
  /-- The condition. -/
  predicate : Option DynamicExpr
  /-- The body. -/
  body : Body

/-- What a loop repeats. -/
structure LoopSpec where
  /-- The variable that holds the item. -/
  var : String
  /-- What has the items. -/
  iterable : DynamicExpr
  /-- What tells items apart, if instances are to be kept when items move. -/
  identity : Option DynamicExpr
  /-- What is built for each item. -/
  body : Body
  /-- What is built when there is no item. -/
  empty : Option Body

/-- The content that a component reference has for the slots of its component. -/
structure SlotContent where
  /-- The content for the slot without a name. -/
  default : Option Body := none
  /-- The content for the slots with a name. -/
  named : OrderedMap String Body := .empty

/-- A block that is carried to the consumer. -/
structure CarrierSpec where
  /-- What it is. -/
  kind : CarrierKind
  /-- Whether it is meant for the whole page. -/
  everywhere : Bool
  /-- Its place among its siblings. -/
  index : Nat
  /-- Its attributes, less the one that makes it global. -/
  attrs : List (String × AttrValue)
  /-- Its text. -/
  text : Option TextSource

/-- What goes inside an element. -/
inductive Content where
  /-- A lone text, taken as the element's own. -/
  | text (source : TextSource)
  /-- Anything else. -/
  | body (body : Body)

/-- A build step. -/
inductive Step where
  /-- Build an element. -/
  | element (tag : String) (actions : List AttrAction) (content : Content)
  /-- Build a text node. -/
  | text (source : TextSource)
  /-- Build a component. -/
  | component (name : ComponentName) (actions : List AttrAction) (slots : SlotContent)
  /-- Build a condition. -/
  | choice (branches : List Branch) (reactive : Bool)
  /-- Build a loop. -/
  | loop (spec : LoopSpec)
  /-- Build a set. -/
  | set (name : String) (value : DynamicExpr) (body : Body)
  /-- Build the content of a slot. -/
  | slot (name : Option String) (fallback : Option Body)
  /-- Run a code block. -/
  | code (body : List Stmt) (line : Nat)
  /-- Build a carrier. -/
  | carrier (spec : CarrierSpec)
  /-- Bind names for a body and for the steps that follow. -/
  | scope (bindings : List (String × AttrValue)) (body : Body)
  /-- Build a signal. -/
  | signal (key action : String)
  /-- Build a body. -/
  | fragment (body : Body)

namespace SlotContent

/-- The content that the children of a component reference are: those that name a slot are for that
slot, and the others together for the slot without a name. -/
def ofNodes (children : List Node) : SlotContent where
  default :=
    if children.all (·.slotSection?.isSome) then none
    else some (.nodes (children.filter (·.slotSection?.isNone)))
  named := .ofList (children.filterMap fun child =>
    child.slotSection?.map fun name => (name, .nodes child.children))

end SlotContent

namespace Step

/-- The step of a template node. -/
def ofNode : Node → Step
  | .root _ children => fragment (.nodes children)
  | .element h children =>
    element h.tag h.actions
      (match Node.loneText? children with
        | some source => .text source
        | none => .body (.nodes children))
  | .component h name children => component name h.actions (.ofNodes children)
  | .choice _ reactive branches =>
    choice (branches.map fun (predicate, nodes) => ⟨predicate, .nodes nodes⟩) reactive
  | .loop _ var iterable identity children empty =>
    loop ⟨var, iterable, identity, .nodes children, empty.map .nodes⟩
  | .binding _ name value children => set name value (.nodes children)
  | .slot _ name children =>
    slot name (if children.isEmpty then none else some (.nodes children))
  | .code _ _ body line => code body line
  | .style h css everywhere _ =>
    carrier ⟨.style, everywhere, h.index, h.carrierBindings, some (.literal css)⟩
  | .script h body _ => carrier ⟨.script, false, h.index, h.carrierBindings, some (.dynamic body)⟩
  | .event h everywhere _ => carrier ⟨.event, everywhere, h.index, h.carrierBindings, none⟩
  | .scope h children => scope h.bindings (.nodes children)
  | .text _ s => text (.literal s)
  | .dynamicText _ e => text (.dynamic e)
  | .signal _ key action _ => signal key action

/-- The step of a step of a program. -/
def ofOp (p : Program) : Op → Step
  | .element tag actions content =>
    element tag actions
      (match content with
        | .text source => .text source
        | .children ops => .body (.ops p ops))
  | .text source => text source
  | .component name actions default named =>
    component name actions
      ⟨default.map (.procedure p), .ofList (named.map fun (key, id) => (key, .procedure p id))⟩
  | .condition branches reactive =>
    choice (branches.map fun b => ⟨b.predicate, .procedure p b.body⟩) reactive
  | .loop var iterable identity body empty =>
    loop ⟨var, iterable, identity, .procedure p body, empty.map (.procedure p)⟩
  | .set name value body => set name value (.procedure p body)
  | .slot name fallback => slot name (fallback.map (.procedure p))
  | .code body line => code body line
  | .carrier kind everywhere index attrs source => carrier ⟨kind, everywhere, index, attrs, source⟩
  | .scope bindings ops => scope bindings (.ops p ops)
  | .signal key action => signal key action
  | .fragment ops => fragment (.ops p ops)

end Step

/-- The steps of a body. -/
def Body.steps : Body → List Step
  | nodes ns => ns.map .ofNode
  | ops p os => os.map (.ofOp p)

/-- What a component is built by. -/
inductive Routine where
  /-- A template, and the name it was found by. -/
  | template (name : String) (root : Node)
  /-- A compiled template. -/
  | program (program : Program)

namespace Routine

/-- The name of the component. -/
def name : Routine → String
  | template name _ => name
  | program p => p.name

/-- The body of the component. -/
def body : Routine → Body
  | template _ root => .nodes root.children
  | program p => .procedure p 0

end Routine
end ReactiveView
