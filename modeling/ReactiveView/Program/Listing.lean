import ReactiveView.Program.Basic
import ReactiveView.Text.Quoted

/-!
# Listings

A program as indented text: a line for each step and a section for each procedure. Listings are for
people; they are not read back.
-/

namespace ReactiveView.Listing

/-- The source of an expression in braces. -/
def braced (e : DynamicExpr) : String := "\x7b" ++ e.source ++ "\x7d"

/-- The source of an expression in braces, marked if it is reactive. -/
def marked (e : DynamicExpr) : String := (if e.reactive then "!" else "") ++ braced e

/-- A text. -/
def textSource : TextSource → String
  | .literal s => Text.quote s
  | .dynamic e => marked e

/-- A value; a missing one counts as true. -/
def operand : AttrValue → String
  | .empty => "true"
  | .literal s => Text.quote s
  | .dynamic e => marked e

/-- A name with its value. -/
def assignment (name : String) (v : AttrValue) : String := name ++ "=" ++ operand v

/-- A kind with its arguments. -/
def applied (kind argument : String) : String := kind ++ "(" ++ argument ++ ")"

/-- An attribute action. -/
def action : AttrAction → String
  | .plain name v => assignment name v
  | .ref name => applied "ref" name
  | .cref name => applied "cref" name
  | .scope name v => applied "scope" (assignment name v)
  | .onInit hook => applied "init" hook
  | .onRender hook => applied "render" hook
  | .classSwitch name v => applied "class" (assignment name v)
  | .styleEntry property v => applied "style" (assignment property v)
  | .bindValue name => applied "bind" name
  | .dynamicSet name v => applied "set" (assignment name v)
  | .data name v => applied "data" (assignment name v)
  | .asset attr v => applied "asset" (assignment attr v)
  | .reactive => "reactive"
  | .style v => assignment "style" v
  | .classes v => assignment "class" v
  | .type v => assignment "type" v
  | .value v => assignment "value" v
  | .localize v => assignment "localize" v
  | .setFalse name => applied "not" name
  | .consume none => "consume"
  | .consume (some keys) => applied "consume" keys

/-- The texts, each with a blank in front. -/
def spaced (texts : List String) : String := String.join (texts.map (" " ++ ·))

/-- A reference to a procedure. -/
def arrow (label : String) (id : ProcId) : String := label ++ "->" ++ toString id

/-- A line at a depth of nesting. -/
def lineAt (depth : Nat) (s : String) : String :=
  String.join (List.replicate depth "  ") ++ s ++ "\n"

/-- A branch of a condition. -/
def branch (b : BranchOp) : String :=
  match b.predicate with
  | some e => arrow (braced e) b.body
  | none => arrow "else" b.body

/-- A mark for what is reactive. -/
def bang (reactive : Bool) : String := if reactive then "!" else ""

mutual

/-- The lines of a step. -/
def op (depth : Nat) : Op → String
  | .element tag attrs content =>
    elementContent depth ("element <" ++ tag ++ ">" ++ spaced (attrs.map action)) content
  | .text t => lineAt depth ("text " ++ textSource t)
  | .component name attrs defaultSlot namedSlots =>
    let target := match name with
      | .fixed name => name
      | .dynamic e => braced e
    let slots :=
      (defaultSlot.map (arrow "default")).toList ++ namedSlots.map fun (n, id) => arrow n id
    lineAt depth ("component " ++ target ++ spaced (attrs.map action ++ slots))
  | .condition branches reactive =>
    lineAt depth ("condition" ++ bang reactive ++ spaced (branches.map branch))
  | .loop var iterable identity body empty =>
    let key := (identity.map fun e => "# " ++ braced e).toList
    let bodies := arrow "body" body :: (empty.map (arrow "empty")).toList
    lineAt depth ("loop" ++ bang iterable.reactive ++ " " ++ var ++ " in " ++ braced iterable ++
      spaced (key ++ bodies))
  | .set name value body =>
    lineAt depth ("set" ++ bang value.reactive ++ " " ++ name ++ " := " ++ braced value ++
      spaced [arrow "body" body])
  | .slot name fallback =>
    lineAt depth ("slot " ++ name.getD "default" ++ spaced (fallback.map (arrow "fallback")).toList)
  | .code body lineOffset =>
    lineAt depth ("code " ++ toString body.length ++ " stmts @" ++ toString lineOffset)
  | .carrier kind everywhere index attrs text =>
    lineAt depth ("carrier " ++ kind.tag ++ " #" ++ toString index ++
      spaced ((if everywhere then ["global"] else []) ++
        (attrs.map fun (name, v) => assignment name v) ++ (text.map textSource).toList))
  | .scope bindings ops =>
    lineAt depth ("scope" ++ spaced (bindings.map fun (name, v) => assignment name v)) ++
      opList (depth + 1) ops
  | .signal key action => lineAt depth ("signal " ++ key ++ " -> " ++ action)
  | .fragment ops => lineAt depth "fragment" ++ opList (depth + 1) ops

/-- The lines of an element, whose own line begins with `head`. -/
def elementContent (depth : Nat) (head : String) : ElementContent → String
  | .text t => lineAt depth (head ++ " " ++ textSource t)
  | .children ops => lineAt depth head ++ opList (depth + 1) ops

/-- The lines of steps. -/
def opList (depth : Nat) : List Op → String
  | [] => ""
  | o :: ops => op depth o ++ opList depth ops

end

/-- The listing of a program. -/
def program (p : Program) : String :=
  let sections := p.procedures.mapIdx fun id proc =>
    lineAt 0 ("proc " ++ toString id ++ " " ++ proc.kind.name) ++ opList 1 proc.ops
  lineAt 0 ("program " ++ p.name ++ " #" ++ p.hash) ++ String.join sections

end ReactiveView.Listing
