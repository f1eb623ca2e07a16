import ReactiveView.Render.Engine

/-!
# Removal

Taking nodes out of the rendered tree. A subtree is removed from its leaves upwards; with each node
go the records of its reads, the name it has in its context, and, for the consumer, a report.
-/

namespace ReactiveView.Engine

/-- The nodes of a subtree down to a depth, each after those under it. -/
def postorderIn (e : Engine) : (depth : Nat) → NodeId → List NodeId
  | 0, _ => []
  | depth + 1, id =>
    match e.node? id with
    | none => []
    | some n => n.children.flatMap (e.postorderIn depth) ++ [id]

/-- The nodes of a subtree, each after those under it. -/
def postorder (e : Engine) (id : NodeId) : List NodeId := e.postorderIn e.chainBound id

/-- Take the name of a node away from its context, if it is still the one that has the name. -/
def unbindRef (e : Engine) (n : RenderNode) (id : NodeId) : Engine :=
  match n.refName with
  | none => e
  | some name =>
    e.modifyContext n.context fun data =>
      if data.refs.get? name = some id then { data with refs := data.refs.erase name } else data

/-- Remove a node whose children are gone. -/
def dropNode (e : Engine) (id : NodeId) : Engine :=
  let e := e.purge id
  let (removed, nodes) := e.nodes.remove id
  let e := { e with nodes := nodes }
  match removed with
  | none => e
  | some n =>
    let e := e.unbindRef n id
    if n.flags.reportable then { e with shot := e.shot.delete id } else e

/-- Remove a subtree. -/
def dropSubtree (e : Engine) (id : NodeId) : Engine := (e.postorder id).foldl dropNode e

/-- Remove the children of a node with all that is under them. -/
def clearChildren (e : Engine) (id : NodeId) : Engine :=
  let children := ((e.node? id).map (·.children)).getD []
  children.foldl dropSubtree (e.modifyNode id fun n => { n with children := [] })

/-- Remove a node with all that is under it, and take it from its parent. -/
def removeNode (e : Engine) (id : NodeId) : Engine :=
  match e.node? id with
  | none => e
  | some n =>
    let e :=
      match n.parent with
      | none => e
      | some parent =>
        e.modifyNode parent fun p => { p with children := p.children.filter (· ≠ id) }
    e.dropSubtree id

end ReactiveView.Engine
