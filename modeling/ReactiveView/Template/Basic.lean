import ReactiveView.Template.Attribute

/-!
# Template trees

A template is read once into a tree of nodes, which all instances of the template share. Each node
says where it stands and which place it has among its siblings; what else it holds depends on what
it is. Code blocks come before their siblings.
-/

namespace ReactiveView

/-- How a reference names its component. -/
inductive ComponentName where
  /-- By name. -/
  | fixed (name : String)
  /-- By the text of an expression. -/
  | dynamic (e : DynamicExpr)

/-- What every node of a template has. -/
structure Header where
  /-- The tag: as written for elements, components and roots, else the name of the kind of node. -/
  tag : String
  /-- The attributes in order. -/
  attributes : List Attribute
  /-- Where the node stands. -/
  span : Span
  /-- Its place among its siblings. -/
  index : Nat

/-- A node of a template. -/
inductive Node where
  /-- The outermost node. -/
  | root (header : Header) (children : List Node)
  /-- An element. -/
  | element (header : Header) (children : List Node)
  /-- A reference to a component, with the content for its slots. -/
  | component (header : Header) (name : ComponentName) (children : List Node)
  /-- The first branch whose condition holds; a branch without a condition always does. -/
  | choice (header : Header) (reactive : Bool) (branches : List (Option DynamicExpr × List Node))
  /-- Its content once for each item, or the empty case if there is no item. -/
  | loop (header : Header) (var : String) (iterable : DynamicExpr) (identity : Option DynamicExpr)
    (children : List Node) (empty : Option (List Node))
  /-- Its content with a name bound to a value. -/
  | binding (header : Header) (name : String) (value : DynamicExpr) (children : List Node)
  /-- The place of a caller's content, with content of its own for want of it. -/
  | slot (header : Header) (name : Option String) (children : List Node)
  /-- A code block. -/
  | code (header : Header) (source : String) (body : List Stmt) (line : Nat)
  /-- A style block. -/
  | style (header : Header) (text : String) (everywhere : Bool) (line : Nat)
  /-- A script block, whose substitutions are those of a format string. -/
  | script (header : Header) (body : DynamicExpr) (line : Nat)
  /-- An event binding. -/
  | event (header : Header) (everywhere : Bool) (children : List Node)
  /-- Attributes that write variables, with content. -/
  | scope (header : Header) (children : List Node)
  /-- Text. -/
  | text (header : Header) (text : String)
  /-- The text of an expression. -/
  | dynamicText (header : Header) (e : DynamicExpr)
  /-- A signal: an action that runs when a variable is written. -/
  | signal (header : Header) (key : String) (action : String) (children : List Node)

namespace Node

/-- What a node has in common with every other. -/
def header : Node → Header
  | root h _ | element h _ | component h _ _ | choice h _ _ | loop h _ _ _ _ _ | binding h _ _ _
  | slot h _ _ | code h _ _ _ | style h _ _ _ | script h _ _ | event h _ _ | scope h _ | text h _
  | dynamicText h _ | signal h _ _ _ => h

/-- The node with another header. -/
def withHeader (h : Header) : Node → Node
  | root _ cs => root h cs
  | element _ cs => element h cs
  | component _ name cs => component h name cs
  | choice _ reactive branches => choice h reactive branches
  | loop _ var iterable identity cs empty => loop h var iterable identity cs empty
  | binding _ name value cs => binding h name value cs
  | slot _ name cs => slot h name cs
  | code _ source body line => code h source body line
  | style _ css everywhere line => style h css everywhere line
  | script _ body line => script h body line
  | event _ everywhere cs => event h everywhere cs
  | scope _ cs => scope h cs
  | text _ s => text h s
  | dynamicText _ e => dynamicText h e
  | signal _ key action cs => signal h key action cs

/-- The name of the kind of a node. -/
def kindName : Node → String
  | root .. => "root"
  | element .. => "element"
  | component .. => "component"
  | choice .. => "if"
  | loop .. => "for"
  | binding .. => "set"
  | slot .. => "@slot"
  | code .. => "@python"
  | style .. => "@style"
  | script .. => "@script"
  | event .. => "@event"
  | scope .. => "@scope"
  | text .. => "@text"
  | dynamicText .. => "@macro"
  | signal .. => "@react"

/-- The tag. -/
def tag (n : Node) : String := n.header.tag

/-- The attributes. -/
def attributes (n : Node) : List Attribute := n.header.attributes

/-- The children; branches and empty cases are not among them. -/
def children : Node → List Node
  | root _ cs | element _ cs | component _ _ cs | loop _ _ _ _ cs _ | binding _ _ _ cs | slot _ _ cs
  | event _ _ cs | scope _ cs | signal _ _ _ cs => cs
  | choice .. | code .. | style .. | script .. | text .. | dynamicText .. => []

/-- The text that a node holds as it stands in the source. -/
def source? : Node → Option String
  | code _ source _ _ => some source
  | style _ css _ _ => some css
  | script _ body _ => some body.source
  | text _ s => some s
  | dynamicText _ e => some e.source
  | _ => none

/-- Whether a node is a code block. -/
def isCode : Node → Bool
  | code .. => true
  | _ => false

/-- Whether a node is a root. -/
def isRoot : Node → Bool
  | root .. => true
  | _ => false

/-- The name of the template of a root: its tag without the sigil. -/
def templateName (n : Node) : String :=
  match n.tag.toList with
  | '$' :: rest => String.ofList rest
  | _ => n.tag

/-- The node with a place among its siblings. -/
def withIndex (index : Nat) (n : Node) : Node := n.withHeader { n.header with index := index }

/-- Siblings as they belong into a tree: code blocks first, each group in its order, and every node
with its place. -/
def arrange (nodes : List Node) : List Node :=
  (nodes.filter isCode ++ nodes.filter (!·.isCode)).mapIdx withIndex

end Node
end ReactiveView
