import ReactiveView.Render.Evaluation

/-!
# What elements show

The state of an element is computed from its attributes each time the element is updated: an empty
state, on which the actions of the attributes work in turn (`applyAction`), then the text, and last
the edits that code has made. Classes that code has added stay, and so does a text without an
expression.
-/

namespace ReactiveView

/-- Where the attributes of an element are evaluated. -/
structure ElementSite where
  /-- The element. -/
  id : NodeId
  /-- Its context. -/
  ctx : NodeId
  /-- Its frame. -/
  frame : Option FrameId
  /-- Whether all evaluations are tracked. -/
  reactive : Bool

/-- The site of one evaluation. -/
def ElementSite.site (s : ElementSite) (tracked : Bool) : Site :=
  .ofNode s.ctx s.frame s.id tracked

/-- The site of an expression that may ask for tracking itself. -/
def ElementSite.siteOf (s : ElementSite) (e : DynamicExpr) : Site :=
  s.site (s.reactive || e.reactive)

/-- What a literal means where a truth value is expected. -/
def literalFlag (text : String) : Value :=
  if text = "yes" ∨ text = "true" then .bool true
  else if text = "no" ∨ text = "false" ∨ text = "" then .bool false
  else .str text

namespace ElementState

/-- Set an attribute. -/
def setAttr (s : ElementState) (name text : String) : ElementState :=
  { s with attrs := s.attrs.insert name text }

/-- Set a style property, or remove it if the value is null or a truth value. -/
def setStyle (s : ElementState) (property : String) (v : Value) : ElementState :=
  match v with
  | .null | .bool _ => { s with style := s.style.erase property }
  | v => { s with style := s.style.insert property v.display }

/-- Set style properties from a map, or from a text of declarations. -/
def setStyles (s : ElementState) (v : Value) : ElementState :=
  match v with
  | .map entries => { s with style := s.style.insertAll (entries.mapValues (·.display)).entries }
  | .str text => { s with style := s.style.insertAll (styleDeclarations text) }
  | _ => s

/-- Set an attribute that a false value removes and that truth alone shows without a text; some
names are not those of attributes. -/
def setDynamic (s : ElementState) (name : String) (v : Value) : ElementState :=
  match name with
  | "focus" => { s with focus := v.truthy }
  | "localize" => { s with localize := v.truthy }
  | "type" => { s with valueType := if v.truthy then some v.display else none }
  | _ =>
    if !v.truthy then { s with attrs := s.attrs.erase name }
    else
      match v with
      | .bool true => s.setAttr name ""
      | v => s.setAttr name v.display

/-- Set the classes from a text. -/
def setClasses (s : ElementState) (text : String) : ElementState :=
  { s with classes := (Text.piecesBy Text.isBlank text.toList).map String.ofList }

end ElementState

/-- Show a state; whether it differs from the present one. -/
def Engine.showState (e : Engine) (id : NodeId) (state : ElementState) : Bool × Engine :=
  match e.element? id with
  | none => (false, e)
  | some data =>
    (!data.state.same state, e.modifyElement id fun data => { data with state := state })

namespace Render

variable (re : Reentry)

/-- The value of an attribute of an element; without an operand it is true. -/
def operandFor (s : ElementSite) : AttrValue → Act Value
  | .dynamic e => evaluateAt re (s.siteOf e) e
  | v => operandAt re (s.site false) v

/-- The value of an attribute that is a truth value if it is a literal. -/
def flagFor (s : ElementSite) : AttrValue → Act Value
  | .literal text => pure (literalFlag text)
  | v => operandFor re s v

/-- The text of an attribute, if it has an operand. -/
def textFor? (s : ElementSite) : AttrValue → Act (Option String)
  | .empty => pure none
  | .literal text => pure (some text)
  | v => do return some (← operandFor re s v).display

/-- The value of a variable as an element sees it. -/
def variableFor (s : ElementSite) (name : String) (tracked : Bool) : Act (Option Value) :=
  Act.step fun e => e.lookupAt (s.site tracked) name

/-- The value of the variable that an element is bound to, which is defined if it was not. -/
def boundValue (s : ElementSite) (name : String) : Act Value := do
  match ← variableFor s name true with
  | some v => return v
  | none =>
    Act.change fun e => e.initVar (e.scopeOwner s.ctx) name .null
    return .null

/-- What an attribute does to the state of its element. -/
def applyAction (s : ElementSite) (state : ElementState) : AttrAction → Act ElementState
  | .plain name v => do return state.setAttr name ((← textFor? re s v).getD "")
  | .classSwitch name v => do
    let on ←
      match v with
      | .empty => variableFor s name s.reactive
      | .literal key => variableFor s key s.reactive
      | v => some <$> operandFor re s v
    return { state with switches := state.switches.insert name (on.any (·.truthy)) }
  | .styleEntry property v => do return state.setStyle property (← operandFor re s v)
  | .bindValue name => do return { state with value := some (← boundValue s name) }
  | .dynamicSet name v => do return state.setDynamic name (← flagFor re s v)
  | .data name v => do
    let v ← operandFor re s v
    return { state with data := state.data.insert name v }
  | .asset attr v => do
    match ← textFor? re s v with
    | none => return state
    | some path =>
      let address ← Act.read fun e => assetAddress e.assets (e.contextName s.ctx) path
      return state.setAttr attr address
  | .style v => do return state.setStyles (← operandFor re s v)
  | .classes v => do return state.setClasses ((← textFor? re s v).getD "")
  | .type v => do return { state with valueType := ← textFor? re s v }
  | .value v => do return { state with value := some (← operandFor re s v) }
  | .localize v => do return { state with localize := (← flagFor re s v).truthy }
  | .ref _ | .cref _ | .scope _ _ | .onInit _ | .onRender _ | .reactive | .setFalse _
  | .consume _ => pure state

/-- The state with the text of an expression, if there is one. -/
def applyText (s : ElementSite) (state : ElementState) : Option DynamicExpr → Act ElementState
  | none => pure state
  | some e => do
    let v ← evaluateAt re (s.siteOf e) e
    let text ← Act.step (·.localizeText v.display)
    return { state with text := some text }

/-- What the state of an element begins with. -/
def initialState (data : ElementData) : ElementState :=
  { extraClasses := data.state.extraClasses
    text := if data.textExpr.isNone then data.state.text else none }

/-- Compute what an element shows; whether that changed. -/
def refreshElement (id : NodeId) : Act Bool := do
  match ← Act.read (·.node? id) with
  | none => return false
  | some n =>
    match n.kind with
    | .element data =>
      let s : ElementSite := ⟨id, n.context, n.frame, n.flags.reactive⟩
      let state ← data.actions.foldlM (applyAction re s) (initialState data)
      let state ← applyText re s state data.textExpr
      Act.step (·.showState id (data.overlay.apply state))
    | _ => return false

end Render
end ReactiveView
