/-!
# Tags

The tables of tag names, the classes of tags that follow from them, and the namespaces of markup. A
tag is classified by its first character, or by its name: everything unmatched is a plain element.
-/

namespace ReactiveView

/-- A namespace of markup. -/
inductive Namespace where
  /-- Documents. -/
  | html
  /-- Vector graphics. -/
  | svg
  /-- Formulas. -/
  | mathml
deriving DecidableEq, Repr, Inhabited

namespace Namespace

/-- The name of a namespace on the wire. -/
def name : Namespace → String
  | html => "html"
  | svg => "svg"
  | mathml => "mathml"

/-- The namespace of a name. -/
def ofName? (x : String) : Option Namespace := [html, svg, mathml].find? fun ns => ns.name = x

/-- The namespace of a tag below a parent: graphics and formulas open their own, and a foreign
object in graphics returns to documents. -/
def below (parent : Namespace) (tag : String) : Namespace :=
  if tag = "svg" then svg
  else if tag = "math" then mathml
  else if parent = svg ∧ tag = "foreignObject" then html
  else parent

end Namespace

namespace Tag

/-- The elements without content, which need no end tag. -/
def voidTags : List String :=
  ["area", "base", "br", "col", "embed", "hr", "img", "input", "link", "meta", "param", "source",
    "track", "wbr"]

/-- The names of directives that may be written without a sigil. -/
def directiveTags : List String := ["slot", "event", "scope", "react", "component"]

/-- The names of blocks whose content is read as it stands. -/
def rawTags : List String := ["python", "style", "script"]

/-- Whether elements of the name have no content. -/
def isVoid (tag : String) : Bool := voidTags.contains tag

/-- Whether the name is that of a directive. -/
def isDirective (tag : String) : Bool := directiveTags.contains tag

/-- Whether the name is that of a raw block. -/
def isRaw (tag : String) : Bool := rawTags.contains tag

/-- Whether the name is that of a component: it begins with an ASCII capital. -/
def isComponent (tag : String) : Bool :=
  match tag.toList with
  | c :: _ => 'A' ≤ c && c ≤ 'Z'
  | [] => false

end Tag

/-- The class of a tag. -/
inductive TagClass where
  /-- A plain element. -/
  | element
  /-- A reference to a component. -/
  | component
  /-- The outermost node of a template. -/
  | root
  /-- A control word. -/
  | control
  /-- A directive. -/
  | directive
deriving DecidableEq, Repr

/-- The name of a class. -/
def TagClass.name : TagClass → String
  | element => "Element"
  | component => "Component"
  | root => "Root"
  | control => "Macro"
  | directive => "Directive"

/-- Classify a tag by its sigil or its name. -/
def TagClass.ofTag (tag : String) : TagClass :=
  match tag.toList with
  | '$' :: _ => root
  | '#' :: _ => control
  | '@' :: _ => directive
  | _ =>
    if Tag.isComponent tag then component
    else if Tag.isDirective tag || Tag.isRaw tag then directive
    else element

/-- The name of a directive without its sigil. -/
def Tag.directiveName (tag : String) : String :=
  match tag.toList with
  | '@' :: rest => String.ofList rest
  | _ => tag

end ReactiveView
