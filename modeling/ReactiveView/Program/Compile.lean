import ReactiveView.Program.Basic
import ReactiveView.Template.Parser
import ReactiveView.Text.Digest

/-!
# Compilation

`compile` turns a template tree into a program. Attributes are resolved into actions, a lone text
child becomes the text of its element, and every nested body becomes a procedure.

Procedures are numbered in the order in which a walk meets their bodies, a body before those inside
it. The walk is told the next free number and returns the procedures it makes, numbered from there
on: the procedure of a body with number `n` is followed by those of the bodies inside it, from `n +
1` on.
-/

namespace ReactiveView

namespace Compile

/-- The procedure of a body whose steps and inner procedures are given. -/
def asProcedure (kind : ProcKind) (body : List Op × List Procedure) : List Procedure :=
  ⟨kind, body.1⟩ :: body.2

mutual

/-- The step of a node, and the procedures of the bodies in it, numbered from `next` on. -/
def nodeOp (next : ProcId) : Node → Op × List Procedure
  | .root _ children =>
    let (ops, procs) := nodeOps next children
    (.fragment ops, procs)
  | .element h children =>
    match Node.loneText? children with
    | some t => (.element h.tag h.actions (.text t), [])
    | none =>
      let (ops, procs) := nodeOps next children
      (.element h.tag h.actions (.children ops), procs)
  | .component h name children =>
    let (sections, procs) := slotSections next children
    let after := next + procs.length
    if children.all fun child => child.slotSection?.isSome then
      (.component name h.actions none sections, procs)
    else
      let content := asProcedure .slotContent (contentOps (after + 1) children)
      (.component name h.actions (some after) sections, procs ++ content)
  | .choice _ reactive branches =>
    let (ops, procs) := branchOps next branches
    (.condition ops reactive, procs)
  | .loop _ var iterable identity children empty =>
    let body := asProcedure .loopBody (nodeOps (next + 1) children)
    match empty with
    | none => (.loop var iterable identity next none, body)
    | some nodes =>
      let after := next + body.length
      let emptyCase := asProcedure .loopEmpty (nodeOps (after + 1) nodes)
      (.loop var iterable identity next (some after), body ++ emptyCase)
  | .binding _ name value children =>
    (.set name value next, asProcedure .setBody (nodeOps (next + 1) children))
  | .slot _ name children =>
    if children.isEmpty then (.slot name none, [])
    else (.slot name (some next), asProcedure .slotFallback (nodeOps (next + 1) children))
  | .code _ _ body line => (.code body line, [])
  | .style h css everywhere _ =>
    (.carrier .style everywhere h.index h.carrierBindings (some (.literal css)), [])
  | .script h body _ =>
    (.carrier .script false h.index h.carrierBindings (some (.dynamic body)), [])
  | .event h everywhere _ => (.carrier .event everywhere h.index h.carrierBindings none, [])
  | .scope h children =>
    let (ops, procs) := nodeOps next children
    (.scope h.bindings ops, procs)
  | .text _ s => (.text (.literal s), [])
  | .dynamicText _ e => (.text (.dynamic e), [])
  | .signal _ key action _ => (.signal key action, [])
termination_by structural n => n

/-- The steps of siblings. -/
def nodeOps (next : ProcId) : List Node → List Op × List Procedure
  | [] => ([], [])
  | n :: ns =>
    let (op, procs) := nodeOp next n
    let (ops, more) := nodeOps (next + procs.length) ns
    (op :: ops, procs ++ more)
termination_by structural ns => ns

/-- The content of the named slots among the children of a component reference. -/
def slotSections (next : ProcId) : List Node → List (String × ProcId) × List Procedure
  | [] => ([], [])
  | .element h children :: ns =>
    match (Node.element h children).slotSection? with
    | none => slotSections next ns
    | some name =>
      let procs := asProcedure .slotContent (nodeOps (next + 1) children)
      let (sections, more) := slotSections (next + procs.length) ns
      ((name, next) :: sections, procs ++ more)
  | _ :: ns => slotSections next ns
termination_by structural ns => ns

/-- The steps of the children of a component reference that are not content of a named slot. -/
def contentOps (next : ProcId) : List Node → List Op × List Procedure
  | [] => ([], [])
  | n :: ns =>
    if n.slotSection?.isSome then contentOps next ns
    else
      let (op, procs) := nodeOp next n
      let (ops, more) := contentOps (next + procs.length) ns
      (op :: ops, procs ++ more)
termination_by structural ns => ns

/-- The branches of a condition. -/
def branchOps (next : ProcId) : List (Option DynamicExpr × List Node) →
    List BranchOp × List Procedure
  | [] => ([], [])
  | (predicate, nodes) :: branches =>
    let procs := asProcedure .branch (nodeOps (next + 1) nodes)
    let (ops, more) := branchOps (next + procs.length) branches
    (⟨predicate, next⟩ :: ops, procs ++ more)
termination_by structural branches => branches

end

end Compile

/-- Compile a template tree under a name and the fingerprint of its source. -/
def compile (name : String) (root : Node) (hash : String) : Program :=
  ⟨name, hash, Compile.asProcedure .entry (Compile.nodeOps 1 root.children)⟩

/-- Read and compile a source. -/
def compileSource (name source : String) : Except TemplateError Program := do
  let root ← parseTemplate source { filename := name ++ ".html" }
  return compile name root (contentHash source)

end ReactiveView
