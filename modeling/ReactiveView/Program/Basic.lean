import ReactiveView.Template.Content

/-!
# Programs

A compiled template is a flat list of procedures. The first builds the template itself; every body
that is built later or repeatedly (branches, loop bodies, empty cases, set bodies, slot content and
slot fallbacks) is a procedure of its own, and operations refer to it by number. Attributes are
stored as actions, so that running a program never classifies anything.
-/

namespace ReactiveView

/-- The number of a procedure in its program. -/
abbrev ProcId := Nat

/-- What a procedure is the body of. -/
inductive ProcKind where
  /-- The template itself. -/
  | entry
  /-- A branch of a condition. -/
  | branch
  /-- One instance of a loop. -/
  | loopBody
  /-- The empty case of a loop. -/
  | loopEmpty
  /-- The content of a set. -/
  | setBody
  /-- The content for a slot. -/
  | slotContent
  /-- The content of a slot for want of any other. -/
  | slotFallback
deriving DecidableEq, Repr

namespace ProcKind

/-- The name of a kind. -/
def name : ProcKind → String
  | entry => "entry"
  | branch => "branch"
  | loopBody => "loop_body"
  | loopEmpty => "loop_empty"
  | setBody => "set_body"
  | slotContent => "slot_content"
  | slotFallback => "slot_fallback"

/-- All kinds. -/
def all : List ProcKind :=
  [entry, branch, loopBody, loopEmpty, setBody, slotContent, slotFallback]

end ProcKind

/-- A block that is carried to the consumer and means nothing to the renderer. -/
inductive CarrierKind where
  /-- A style block. -/
  | style
  /-- A script block. -/
  | script
  /-- An event binding. -/
  | event
deriving DecidableEq, Repr

namespace CarrierKind

/-- The name of a kind. -/
def name : CarrierKind → String
  | style => "style"
  | script => "script"
  | event => "event"

/-- The tag of its nodes. -/
def tag (k : CarrierKind) : String := "@" ++ k.name

/-- All kinds. -/
def all : List CarrierKind := [style, script, event]

end CarrierKind

/-- A branch: its condition, if it has one, and its body. -/
structure BranchOp where
  /-- The condition. -/
  predicate : Option DynamicExpr
  /-- The body. -/
  body : ProcId

mutual

/-- A build step. -/
inductive Op where
  /-- Build an element. -/
  | element (tag : String) (attrs : List AttrAction) (content : ElementContent)
  /-- Build a text node. -/
  | text (source : TextSource)
  /-- Build a component with content for its slots. -/
  | component (name : ComponentName) (attrs : List AttrAction) (defaultSlot : Option ProcId)
    (namedSlots : List (String × ProcId))
  /-- Build a condition. -/
  | condition (branches : List BranchOp) (reactive : Bool)
  /-- Build a loop. -/
  | loop (var : String) (iterable : DynamicExpr) (identity : Option DynamicExpr) (body : ProcId)
    (empty : Option ProcId)
  /-- Build a set. -/
  | set (name : String) (value : DynamicExpr) (body : ProcId)
  /-- Build the content of a slot. -/
  | slot (name : Option String) (fallback : Option ProcId)
  /-- Run a code block. -/
  | code (body : List Stmt) (lineOffset : Nat)
  /-- Build a carrier. -/
  | carrier (kind : CarrierKind) (everywhere : Bool) (index : Nat)
    (attrs : List (String × AttrValue)) (text : Option TextSource)
  /-- Write variables for its own steps and the ones that follow. -/
  | scope (bindings : List (String × AttrValue)) (ops : List Op)
  /-- Build a signal. -/
  | signal (key action : String)
  /-- The steps of a nested root. -/
  | fragment (ops : List Op)

/-- What goes inside an element. -/
inductive ElementContent where
  /-- A lone text, taken as the element's own. -/
  | text (source : TextSource)
  /-- Steps. -/
  | children (ops : List Op)

end

/-- The name of a step. -/
def Op.name : Op → String
  | element .. => "element"
  | text _ => "text"
  | component .. => "component"
  | condition .. => "condition"
  | loop .. => "loop"
  | set .. => "set"
  | slot .. => "slot"
  | code .. => "code"
  | carrier .. => "carrier"
  | scope .. => "scope"
  | signal .. => "signal"
  | fragment _ => "fragment"

mutual

/-- The number of steps in a step, itself and nested ones included. -/
def Op.count : Op → Nat
  | .element _ _ content => content.count + 1
  | .scope _ ops => Op.countAll ops + 1
  | .fragment ops => Op.countAll ops + 1
  | _ => 1

/-- The number of steps inside an element. -/
def ElementContent.count : ElementContent → Nat
  | .text _ => 0
  | .children ops => Op.countAll ops

/-- The number of steps in a list. -/
def Op.countAll : List Op → Nat
  | [] => 0
  | op :: ops => op.count + Op.countAll ops

end

/-- The steps of one body. -/
structure Procedure where
  /-- What it is the body of. -/
  kind : ProcKind
  /-- Its steps. -/
  ops : List Op

/-- A compiled template. -/
structure Program where
  /-- The name of the template. -/
  name : String
  /-- The fingerprint of the source it was compiled from. -/
  hash : String
  /-- Its procedures; the first builds the template. -/
  procedures : List Procedure

namespace Program

/-- A procedure. -/
def procedure? (p : Program) (id : ProcId) : Option Procedure := p.procedures[id]?

/-- The number of steps in all procedures. -/
def opCount (p : Program) : Nat :=
  p.procedures.foldl (fun n proc => n + Op.countAll proc.ops) 0

end Program
end ReactiveView
