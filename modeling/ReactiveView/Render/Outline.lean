import ReactiveView.Render.Engine
import ReactiveView.Text.Quoted

/-!
# Outlines

A rendered tree as text: a line for each node, indented by its depth. Attributes, classes, styles
and texts are quoted.
-/

namespace ReactiveView

/-- The attributes of a node in its line. -/
def outlineAttrs (attrs : OrderedMap String String) : String :=
  String.join (attrs.entries.map fun (name, text) => " " ++ name ++ "=" ++ Text.quote text)

/-- The line of an element. -/
def ElementData.outline (data : ElementData) : String :=
  let state := data.state
  let classes := state.classList
  let style := state.style.entries.map fun (property, text) => property ++ ": " ++ text
  "<" ++ data.tag ++ outlineAttrs state.attrs ++
    (if classes.isEmpty then "" else " class=" ++ Text.quote (" ".intercalate classes)) ++
    (if style.isEmpty then "" else " style=" ++ Text.quote ("; ".intercalate style)) ++
    ((state.value.map fun v => " value=" ++ Text.quote v.display).getD "") ++ ">" ++
    ((state.text.map fun text => " " ++ Text.quote text).getD "")

/-- The line of a node. -/
def RenderKind.outline : RenderKind → String
  | element data => data.outline
  | text data => Text.quote data.text
  | context data => "[" ++ data.name ++ "]"
  | condition data =>
    match data.selected with
    | some index => "#if " ++ toString index
    | none => "#if -"
  | loop _ => "#for"
  | set data => "#set " ++ data.name
  | carrier data => data.kind.tag ++ outlineAttrs data.attrs
  | signal data => "@react " ++ data.key ++ " -> " ++ data.action

namespace Engine

/-- The lines of a subtree down to a depth, at a level of indentation. -/
def outlineIn (e : Engine) : (depth : Nat) → (level : Nat) → NodeId → List String
  | 0, _, _ => []
  | depth + 1, level, id =>
    match e.node? id with
    | none => []
    | some n =>
      (String.ofList (List.replicate (2 * level) ' ') ++ n.kind.outline ++ "\n") ::
        n.children.flatMap (e.outlineIn depth (level + 1))

/-- A subtree as text. -/
def outline (e : Engine) (id : NodeId) : String := String.join (e.outlineIn e.chainBound 0 id)

end Engine
end ReactiveView
