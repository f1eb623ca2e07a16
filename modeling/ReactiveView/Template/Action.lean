import ReactiveView.Template.Attribute
import ReactiveView.Text.Blank

/-!
# Attribute actions

What an attribute does to the element or the component that it sits on, with everything that is
needed to do it (`AttrAction.ofAttribute`). A template resolves its attributes as it is rendered; a
compiled program holds the actions instead of the attributes.
-/

namespace ReactiveView

namespace AttrValue

/-- Whether the reads of an expression are recorded. -/
def isReactive : AttrValue → Bool
  | dynamic e => e.reactive
  | _ => false

/-- Whether there is an expression. -/
def isDynamic : AttrValue → Bool
  | dynamic _ => true
  | _ => false

/-- The literal, or the expression as it is written. -/
def source? : AttrValue → Option String
  | empty => none
  | literal s => some s
  | dynamic e => some e.source

end AttrValue

/-- What an attribute does. -/
inductive AttrAction where
  /-- Writes an attribute, or a variable of a component. -/
  | plain (name : String) (value : AttrValue)
  /-- Binds the node under a name in its context. -/
  | ref (name : String)
  /-- Binds the node under a name in the caller of its context. -/
  | cref (name : String)
  /-- Writes a variable of the scope. -/
  | scope (name : String) (value : AttrValue)
  /-- Runs a hook when the node has been created. -/
  | onInit (hook : String)
  /-- Runs a hook when the node has been built. -/
  | onRender (hook : String)
  /-- Switches a class. -/
  | classSwitch (name : String) (value : AttrValue)
  /-- Sets a style property. -/
  | styleEntry (property : String) (value : AttrValue)
  /-- Shows a variable as the value, and writes it back. -/
  | bindValue (name : String)
  /-- Sets an attribute, which truth alone shows without a value. -/
  | dynamicSet (name : String) (value : AttrValue)
  /-- Attaches data. -/
  | data (name : String) (value : AttrValue)
  /-- Sets an attribute to the address of an asset. -/
  | asset (attr : String) (value : AttrValue)
  /-- Makes every evaluation reactive. -/
  | reactive
  /-- Sets style properties from a text. -/
  | style (value : AttrValue)
  /-- Sets the classes from a text. -/
  | classes (value : AttrValue)
  /-- Sets the type of the value. -/
  | type (value : AttrValue)
  /-- Sets the value. -/
  | value (value : AttrValue)
  /-- Makes texts translated. -/
  | localize (value : AttrValue)
  /-- Makes a variable of a component false. -/
  | setFalse (name : String)
  /-- Takes over variables of the caller, or shares its scope if none are named. -/
  | consume (keys : Option String)

namespace AttrAction

/-- What the action evaluates. -/
def operand? : AttrAction → Option AttrValue
  | plain _ v | scope _ v | classSwitch _ v | styleEntry _ v | dynamicSet _ v | data _ v | asset _ v
  | style v | classes v | type v | value v | localize v => some v
  | ref _ | cref _ | onInit _ | onRender _ | bindValue _ | reactive | setFalse _ | consume _ => none

/-- Whether the action is applied again when its element is updated. A switch always is: without an
expression it reads a variable. -/
def isDynamic : AttrAction → Bool
  | bindValue _ => true
  | classSwitch _ _ => true
  | styleEntry _ v => v.literal?.isNone
  | scope _ _ => false
  | action => action.operand?.any AttrValue.isDynamic

/-- Whether the action keeps its component from being rendered. -/
def isNotRender : AttrAction → Bool
  | setFalse name => name = "render"
  | _ => false

/-- The name of a hook or a variable: what the attribute says, or a name of its own. -/
def hookName (value : AttrValue) (default : String) : String := value.source?.getD default

/-- The action of an attribute. -/
def ofAttribute (a : Attribute) : AttrAction :=
  match a.role with
  | .plain => plain a.name a.value
  | .ref x => ref x
  | .cref x => cref x
  | .scope x => scope x a.value
  | .onRender => onRender (hookName a.value "on_render")
  | .onInit => onInit (hookName a.value "on_init")
  | .classSwitch x => classSwitch x a.value
  | .css x => styleEntry x a.value
  | .bindValue => bindValue (hookName a.value "value")
  | .set x => dynamicSet x a.value
  | .data x => data x a.value
  | .link x => asset x a.value
  | .reactive => reactive
  | .style => style a.value
  | .classList => classes a.value
  | .type => type a.value
  | .value => value a.value
  | .localize => localize a.value
  | .negated x => setFalse x
  | .consume => consume a.value.literal?

end AttrAction

/-- The declarations of a style text: properties and values between semicolons, with a colon between
the two. Declarations without a property are dropped. -/
def styleDeclarations (text : String) : List (String × String) :=
  (Text.splitBy (· == ';') text.toList).filterMap fun declaration =>
    match Text.splitAt? [':'] declaration with
    | none => none
    | some (property, value) =>
      let property := Text.trim property
      if property.isEmpty then none
      else some (String.ofList property, String.ofList (Text.trim value))

/-- The names of a list with commas or blanks between them. -/
def splitKeys (keys : String) : List String :=
  (Text.piecesBy (fun c => c == ',' || Text.isBlank c) keys.toList).map String.ofList

end ReactiveView
