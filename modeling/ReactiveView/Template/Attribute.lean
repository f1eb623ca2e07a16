import ReactiveView.Expr.Basic
import ReactiveView.Template.Position

/-!
# Attributes

What an attribute does follows from its name alone: a few whole names and a few prefixes have a role
of their own (`AttrRole.ofName`), and everything else is written out as it is.
-/

namespace ReactiveView

/-- What an attribute does. -/
inductive AttrRole where
  /-- Written out under its name. -/
  | plain
  /-- Binds the element under a reference name. -/
  | ref (name : String)
  /-- Binds the element under a reference name of the caller. -/
  | cref (name : String)
  /-- Writes a variable of the scope. -/
  | scope (name : String)
  /-- Names the hook that runs when the element has been built. -/
  | onRender
  /-- Names the hook that runs when the element has been created. -/
  | onInit
  /-- Switches a class on and off. -/
  | classSwitch (name : String)
  /-- Sets a style property. -/
  | css (property : String)
  /-- Shows a variable as the value of the element, and writes it back. -/
  | bindValue
  /-- Sets an attribute from data. -/
  | set (name : String)
  /-- Attaches data. -/
  | data (name : String)
  /-- Sets an address, resolved to an asset, under the given attribute. -/
  | link (target : String)
  /-- Makes every evaluation of the element reactive. -/
  | reactive
  /-- Sets style properties from a text. -/
  | style
  /-- Sets the classes. -/
  | classList
  /-- Sets the type of the value. -/
  | type
  /-- Sets the value. -/
  | value
  /-- Makes texts of the element translated. -/
  | localize
  /-- Binds a component variable to the negation of its operand. -/
  | negated (name : String)
  /-- Takes variables of the caller over. -/
  | consume
deriving DecidableEq, Repr

namespace AttrRole

/-- The name of a role. -/
def typeName : AttrRole → String
  | plain => "plain"
  | ref _ => "ref"
  | cref _ => "cref"
  | scope _ => "scope"
  | onRender => "on:render"
  | onInit => "on:init"
  | classSwitch _ => "class-switch"
  | css _ => "css"
  | bindValue => "bind:value"
  | set _ => "set"
  | data _ => "data"
  | link _ => "src-href"
  | reactive => "reactive"
  | style => "style"
  | classList => "class"
  | type => "type"
  | value => "value"
  | localize => "localize"
  | negated _ => "not"
  | consume => "consume"

/-- The part of the name behind the prefix, or the target of a link. -/
def sub? : AttrRole → Option String
  | ref x | cref x | scope x | classSwitch x | css x | set x | data x | link x | negated x => some x
  | _ => none

/-- The names that have a role as a whole. -/
def wholeNames : List (String × AttrRole) :=
  [("on:render", onRender), ("on:init", onInit), ("bind:value", bindValue), ("reactive", reactive),
    ("style", style), ("class", classList), ("type", type), ("value", value),
    ("localize", localize), ("consume", consume)]

/-- The prefixes that give a role to a name with something behind them. -/
def prefixes : List (String × (String → AttrRole)) :=
  [("ref:", ref), ("cref:", cref), ("scope:", scope), ("class:", classSwitch), ("css:", css),
    ("set:", set), ("data:", data), ("src:", fun _ => link "src"), ("href:", fun _ => link "href"),
    ("not:", negated)]

/-- The role that the first matching prefix gives; none when nothing stands behind it. -/
def ofPrefix (cs : List Char) : List (String × (String → AttrRole)) → AttrRole
  | [] => plain
  | (start, role) :: rest =>
    match Text.dropPrefix? start.toList cs with
    | some [] => plain
    | some sub => role (String.ofList sub)
    | none => ofPrefix cs rest

/-- The role of an attribute name. -/
def ofName (name : String) : AttrRole :=
  match wholeNames.find? (·.1 = name) with
  | some (_, role) => role
  | none => ofPrefix name.toList prefixes

end AttrRole

/-- The value of an attribute as it is written. -/
inductive AttrValue where
  /-- No value. -/
  | empty
  /-- A text. -/
  | literal (s : String)
  /-- An expression. -/
  | dynamic (e : DynamicExpr)

namespace AttrValue

/-- The text of a literal value. -/
def literal? : AttrValue → Option String
  | literal s => some s
  | _ => none

/-- The expression of a dynamic value. -/
def dynamic? : AttrValue → Option DynamicExpr
  | dynamic e => some e
  | _ => none

end AttrValue

/-- An attribute of a tag. -/
structure Attribute where
  /-- The whole name. -/
  name : String
  /-- What it does. -/
  role : AttrRole
  /-- Its value. -/
  value : AttrValue
  /-- Where it stands. -/
  span : Span

/-- The attribute of a name. -/
def Attribute.find? (attributes : List Attribute) (name : String) : Option Attribute :=
  List.find? (fun a => a.name = name) attributes

/-- The text of the attribute of a name, if it is literal. -/
def Attribute.literal? (attributes : List Attribute) (name : String) : Option String :=
  (find? attributes name).bind (·.value.literal?)

/-- Whether there is an attribute of a name. -/
def Attribute.has (attributes : List Attribute) (name : String) : Bool :=
  (find? attributes name).isSome

end ReactiveView
