import Mathlib.Data.List.Forall2
import ReactiveView.Proofs.Selective.Sights

/-!
# How a tree is laid out

A node of the tree is the work of one build step, at one place: below certain ancestors, in a certain
frame. This is its `Label`, and no update changes it. A `Plan` gives all nodes their labels, and says
of each frame which node it was made for. A node stands for its step (`Plan.Stands`) if it holds what
the step says, and its children are labelled by what is built inside: the content of an element, the
selected branch, an instance for each item, the body of a set in a frame with its value. What it
shows is a `Sight`.

An engine is laid out (`Engine.Laid`) if all nodes stand for their steps, except those that are being
worked on, and if all of them show what a look finds from where they are, and cover what that reads,
except those that are stale. What is evaluated in such an engine has arrived at its step by the
selected branches, the items and the values that were found on the way (`Body.Arrives`).
-/

namespace ReactiveView

/-! ## What a step shows -/

/-- What a node shows. -/
inductive Sight where
  /-- The state of an element. -/
  | state (s : ElementState)
  /-- A text. -/
  | text (s : String)
  /-- The selected branch. -/
  | branch (index : Option Nat)
  /-- The items of a loop. -/
  | items (items : List Value)
  /-- The value of a set. -/
  | value (v : Value)
  /-- Nothing of its own. -/
  | none

/-- The expression of a lone text. -/
def Content.expr? : Content → Option DynamicExpr
  | text source => source.dynamic?
  | body _ => Option.none

/-- The text that an element has without an expression. -/
def Content.fixed (o : Outlook) : Content → Option String
  | text (.literal s) => some (o.shown s)
  | _ => Option.none

/-- What is built inside an element. -/
def Content.steps : Content → List Step
  | text _ => []
  | body b => b.steps

/-- What is built of a condition. -/
def Branch.steps (branches : List Branch) (selected : Option Nat) : List Step :=
  ((selected.bind (branches[·]?)).map (·.body.steps)).getD []

/-- What is built of a loop without items. -/
def LoopSpec.emptySteps (spec : LoopSpec) : List Step := (spec.empty.map (·.steps)).getD []

/-- What is built of a condition is that of one of its branches. -/
theorem Branch.mem_steps {branches : List Branch} {selected : Option Nat} {s : Step}
    (h : s ∈ Branch.steps branches selected) : ∃ b ∈ branches, s ∈ b.body.steps := by
  unfold Branch.steps at h
  cases hb : selected.bind (branches[·]?) with
  | none =>
    rw [hb] at h
    exact absurd h List.not_mem_nil
  | some b =>
    rw [hb] at h
    obtain ⟨i, -, hi⟩ := Option.bind_eq_some_iff.1 hb
    exact ⟨b, List.mem_of_getElem? hi, h⟩

/-- What is built of a loop without items is its empty case. -/
theorem LoopSpec.mem_emptySteps {spec : LoopSpec} {s : Step} (h : s ∈ spec.emptySteps) :
    ∃ body, spec.empty = some body ∧ s ∈ body.steps := by
  unfold LoopSpec.emptySteps at h
  cases hempty : spec.empty with
  | none =>
    rw [hempty] at h
    exact absurd h List.not_mem_nil
  | some body =>
    rw [hempty] at h
    exact ⟨body, rfl, h⟩

/-- The value of a selective expression is inert. -/
theorem Look.inert_value {o : Outlook} (ho : o.Quiet) {e : DynamicExpr} (he : e.selective = true) :
    ((Look.value e).result o).inert = true :=
  Vars.inert_value ho.inert (Bool.and_eq_true_iff.1 he).2

/-- The items of a selective loop are inert. -/
theorem Look.inert_of_mem_items {o : Outlook} (ho : o.Quiet) {e : DynamicExpr}
    (he : e.selective = true) {v : Value} (hv : v ∈ (Look.items e).result o) : v.inert = true := by
  change v ∈ ((Look.value e).result o).items?.getD [] at hv
  cases hitems : ((Look.value e).result o).items? with
  | none =>
    rw [hitems] at hv
    exact absurd hv List.not_mem_nil
  | some items =>
    rw [hitems] at hv
    exact Value.inert_of_mem_items (Look.inert_value ho he) hitems hv

/-- What a selective element is made of. -/
theorem Step.Selective.parts {tag : String} {actions : List AttrAction} {content : Content}
    (h : Selective (.element tag actions content)) :
    (∀ a ∈ actions, a.selective = true) ∧ content.expr?.all (·.selective) = true := by
  cases h with
  | leaf actions_ok source_ok => exact ⟨actions_ok, source_ok⟩
  | element actions_ok _ => exact ⟨actions_ok, rfl⟩

/-- What a step shows. -/
def Step.look : Step → Look Sight
  | element _ actions content => do
    let text ← Look.seen content.fixed
    return .state (← Look.element { text := text } actions content.expr?)
  | text (.literal s) => do return .text (← Look.shown s)
  | text (.dynamic e) => do return .text (← Look.text e)
  | choice branches _ => do return .branch (← Look.branch 0 branches)
  | loop spec => do return .items (← Look.items spec.iterable)
  | set _ value _ => do return .value (← Look.value value)
  | _ => pure .none

/-- What a selective step shows is what some operation shows. -/
theorem Step.Selective.exists_looks {step : Step} (h : step.Selective) :
    ∃ (x : Act Sight) (site : Site), x.Looks site step.look := by
  have hdynamic {α : Type} {l : Look α} (f : α → Sight) {x : Act α}
      (hx : x.Looks (.ofNode ⟨0, 0⟩ none ⟨0, 0⟩ true) l) :
      ∃ (x : Act Sight) (site : Site), x.Looks site (do return f (← l)) :=
    ⟨_, _, Act.looks_bind hx fun a => Act.looks_pure (f a)⟩
  -- the operations need some site and some node, no matter which
  let re : Reentry := .within 0
  let n : RenderNode := { kind := .text ⟨"", none⟩, parent := none, context := ⟨0, 0⟩ }
  let s : ElementSite := ⟨⟨0, 0⟩, ⟨0, 0⟩, none, true⟩
  have helement {tag : String} {actions : List AttrAction} {content : Content}
      (hactions : ∀ a ∈ actions, a.selective = true)
      (hexpr : content.expr?.all (·.selective) = true) :
      ∃ (x : Act Sight) (site : Site), x.Looks site (Step.element tag actions content).look := by
    -- a literal content is translated, and that has nothing to do with variables
    have hfixed : ∀ o o' : Outlook, o'.translator = o.translator → o'.assets = o.assets →
        o'.component = o.component → content.fixed o' = content.fixed o := by
      intro o o' htranslator _ _
      unfold Content.fixed Outlook.shown
      rw [htranslator]
    exact ⟨_, s.site true, Act.looks_bind (Act.looks_read hfixed) fun text =>
      Act.looks_bind (@Render.element_looks re s { text := text } _ _ hactions hexpr) fun state =>
        Act.looks_pure (Sight.state state)⟩
  cases h with
  | @text source source_ok =>
    cases source with
    | literal s => exact hdynamic Sight.text (Act.looks_shown s)
    | dynamic e =>
      exact hdynamic Sight.text (@Render.nodeText_looks re _ n _ source_ok)
  | leaf actions_ok source_ok => exact helement actions_ok source_ok
  | element actions_ok _ => exact helement actions_ok rfl
  | choice branches_ok _ =>
    exact hdynamic Sight.branch (@Render.firstBranch_looks re _ _ _ _ _ branches_ok 0)
  | loop iterable_ok _ _ _ =>
    exact hdynamic Sight.items (@Render.items_looks re _ _ _ _ iterable_ok)
  | set value_ok _ =>
    exact hdynamic Sight.value (@Render.setValue_looks re _ _ _ _ value_ok)

/-- What a selective step shows depends on nothing but the variables that it reads. -/
theorem Step.Selective.look_congr {step : Step} (h : step.Selective) {o o' : Outlook} (ho : o.Quiet)
    (hagrees : o.Agrees o' (step.look.reads o)) :
    step.look.result o' = step.look.result o ∧ step.look.reads o' = step.look.reads o := by
  -- each look is that of some operation
  obtain ⟨x, site, hx⟩ := h.exists_looks
  exact hx.congr ho hagrees

/-! ## Keys -/

/-- The key of an item, and the value of its identity. -/
def LoopSpec.keyOf (spec : LoopSpec) (item : Value) : Key × Value :=
  match spec.identity with
  | none => (.null, .null)
  | some e =>
    let v := (Vars.bind (fun _ => none) spec.var item).value e.expr
    (v.key?.getD (.str v.display), v)

/-- The first item of each key, with the value of its identity, after those that there are. -/
def LoopSpec.wantedFrom (spec : LoopSpec) (wanted : OrderedMap Key (Value × Value)) :
    List Value → OrderedMap Key (Value × Value)
  | [] => wanted
  | item :: items =>
    let (key, identity) := spec.keyOf item
    spec.wantedFrom (if wanted.contains key then wanted else wanted.insert key (identity, item)) items

/-- The rounds of a loop: the items for which there are instances, with their keys. -/
def LoopSpec.rounds (spec : LoopSpec) (items : List Value) : List (Key × Value) :=
  if spec.identity.isSome then (spec.wantedFrom .empty items).entries.map fun p => (p.1, p.2.2)
  else items.map fun item => (.null, item)

/-- What a loop is built from: its items, or its instances by their keys. -/
def LoopSpec.stateOf (spec : LoopSpec) (items : List Value)
    (insts : List Instance) : LoopState :=
  if spec.identity.isSome then .keyed ⟨((spec.rounds items).map (·.1)).zip insts⟩ else .plain items

/-! ## What arrives at a step -/

namespace Body

variable (b : Body) (Start : Outlook → Prop)

/-- A step is built at an outlook, when the body is built at one of the given outlooks. -/
inductive Arrives : Step → Outlook → Prop
  /-- A step of the body. -/
  | top {o : Outlook} {s : Step} (start : Start o) (mem : s ∈ b.steps) : Arrives s o
  /-- A step inside an element. -/
  | element {tag : String} {actions : List AttrAction} {content : Content} {o : Outlook} {s : Step}
      (outer : Arrives (.element tag actions content) o) (mem : s ∈ content.steps) : Arrives s o
  /-- A step of the selected branch. -/
  | branch {branches : List Branch} {reactive : Bool} {o : Outlook} {s : Step}
      (outer : Arrives (.choice branches reactive) o)
      (mem : s ∈ Branch.steps branches ((Look.branch 0 branches).result o)) : Arrives s o
  /-- A step that is repeated for an item. -/
  | item {spec : LoopSpec} {o : Outlook} {v : Value} {s : Step} (outer : Arrives (.loop spec) o)
      (found : v ∈ (Look.items spec.iterable).result o) (mem : s ∈ spec.body.steps) :
      Arrives s (o.bind spec.var v)
  /-- A step of the empty case. -/
  | empty {spec : LoopSpec} {o : Outlook} {s : Step} (outer : Arrives (.loop spec) o)
      (found : (Look.items spec.iterable).result o = []) (mem : s ∈ spec.emptySteps) : Arrives s o
  /-- A step for which a name is bound. -/
  | bound {name : String} {value : DynamicExpr} {body : Body} {o : Outlook} {s : Step}
      (outer : Arrives (.set name value body) o) (mem : s ∈ body.steps) :
      Arrives s (o.bind name ((Look.value value).result o))

/-- A value is that of a set or an item of a loop. -/
inductive Arises : Value → Prop
  /-- The value of a set. -/
  | value {name : String} {value : DynamicExpr} {body : Body} {o : Outlook}
      (at_set : Arrives b Start (.set name value body) o) : Arises ((Look.value value).result o)
  /-- An item. -/
  | item {spec : LoopSpec} {o : Outlook} {v : Value} (at_loop : Arrives b Start (.loop spec) o)
      (found : v ∈ (Look.items spec.iterable).result o) : Arises v

/-- A selective body that is built where values mean the same everywhere, and where values that
compare equal are equal. -/
structure Suits : Prop where
  /-- The body is selective. -/
  selective : ∀ s ∈ b.steps, s.Selective
  /-- What is seen at the start is quiet. -/
  quiet : ∀ o, Start o → o.Quiet
  /-- Comparison of the values that arise is equality. -/
  same : ∀ v w, b.Arises Start v → b.Arises Start w → v.same w = true → v = w

variable {b Start}

/-- What arrives anywhere is selective, and sees what is quiet. -/
theorem Suits.arrives (h : b.Suits Start) {s : Step} {o : Outlook} (hs : b.Arrives Start s o) :
    s.Selective ∧ o.Quiet := by
  induction hs with
  | top start mem => exact ⟨h.selective _ mem, h.quiet _ start⟩
  | element _ mem ih =>
    obtain ⟨hselective, ho⟩ := ih
    cases hselective with
    | leaf _ _ => exact absurd mem List.not_mem_nil
    | element _ inside => exact ⟨inside _ mem, ho⟩
  | branch _ mem ih =>
    obtain ⟨hselective, ho⟩ := ih
    cases hselective with
    | choice _ inside =>
      obtain ⟨b, hb, hmem⟩ := Branch.mem_steps mem
      exact ⟨inside b hb _ hmem, ho⟩
  | item _ found mem ih =>
    obtain ⟨hselective, ho⟩ := ih
    cases hselective with
    | loop iterable_ok _ inside _ =>
      refine ⟨inside _ mem, ho.bind _ ?_⟩
      exact Look.inert_of_mem_items ho iterable_ok found
  | empty _ _ mem ih =>
    obtain ⟨hselective, ho⟩ := ih
    cases hselective with
    | loop _ _ _ empty =>
      obtain ⟨body, hbody, hmem⟩ := LoopSpec.mem_emptySteps mem
      exact ⟨empty body hbody _ hmem, ho⟩
  | bound _ mem ih =>
    obtain ⟨hselective, ho⟩ := ih
    cases hselective with
    | set value_ok inside => exact ⟨inside _ mem, ho.bind _ (Look.inert_value ho value_ok)⟩

end Body

/-! ## Plans -/

/-- What a node was built by, and where: its ancestors, nearest first, and its frame. -/
structure Label where
  /-- The step. -/
  step : Step
  /-- The ancestors. -/
  path : List NodeId
  /-- The frame. -/
  frame : Option FrameId

/-- The labels of nodes, and the nodes for which frames were made. -/
structure Plan where
  /-- The label of a node. -/
  label : NodeId → Label
  /-- The node for which a frame was made. -/
  home : FrameId → NodeId

namespace Plan

variable (g : Plan)

/-- A node is another one or under it. -/
def Under (c x : NodeId) : Prop := x = c ∨ c ∈ (g.label x).path

/-- The label of what a step builds below a node in a frame. -/
def below (p : NodeId) (frame : Option FrameId) (step : Step) : Label :=
  ⟨step, p :: (g.label p).path, frame⟩

/-- Nodes are labelled by steps that were built in a row. -/
def Row (p : NodeId) (frame : Option FrameId) (steps : List Step) (ids : List NodeId) : Prop :=
  ids.map g.label = steps.map (g.below p frame)

/-- A frame is that of a node, or was made for it inside of that. -/
def Linked (e : Engine) (p : NodeId) (frame : Option FrameId) : Prop :=
  frame = (g.label p).frame ∨ ∃ f fr, frame = some f ∧ e.frames.get? f = some fr ∧ g.home f = p ∧
    fr.parent = (g.label p).frame

/-- A node is where its label says. -/
structure Placed (e : Engine) (root x : NodeId) (n : RenderNode) : Prop where
  /-- It reads the variables of the only component instance. -/
  context : n.context = root
  /-- It is no component instance itself. -/
  other : n.isContext = false
  /-- Its frame. -/
  frame : n.frame = (g.label x).frame
  /-- Its ancestors. -/
  path : ∀ p, n.parent = some p → (g.label x).path = p :: (g.label p).path
  /-- Where its frame comes from. -/
  linked : ∀ p, n.parent = some p → g.Linked e p (g.label x).frame

/-- An instance of a loop for an item. -/
structure Round (e : Engine) (x : NodeId) (spec : LoopSpec) (inst : Instance) (item : Value) :
    Prop where
  /-- Its frame was made for the loop. -/
  home : g.home inst.frame = x
  /-- Its frame binds the item. -/
  binds : e.frames.Binds inst.frame (g.label x).frame spec.var item
  /-- Its nodes. -/
  row : g.Row x (some inst.frame) spec.body.steps inst.nodes

/-- The children of a loop: those of its instances, or of the empty case if there is none. -/
def Filled (x : NodeId) (spec : LoopSpec) (insts : List Instance) (children : List NodeId) : Prop :=
  if insts = [] then g.Row x (g.label x).frame spec.emptySteps children
  else children = insts.flatMap (·.nodes)

variable {g} in
/-- The nodes of an instance are children of the loop. -/
theorem Filled.mem_children {x : NodeId} {spec : LoopSpec} {insts : List Instance}
    {children : List NodeId} (h : g.Filled x spec insts children) {inst : Instance}
    (hinst : inst ∈ insts) {c : NodeId} (hc : c ∈ inst.nodes) : c ∈ children := by
  unfold Filled at h
  rw [if_neg (List.ne_nil_of_mem hinst)] at h
  rw [h]
  exact List.mem_flatMap.2 ⟨inst, hinst, hc⟩

/-- A node that is seen from a certain outlook holds what a step says, and shows something. -/
inductive Stands (Arises : Value → Prop) (e : Engine) (o : Outlook) (x : NodeId) (n : RenderNode) :
    Step → Sight → Prop
  /-- An element that code has not edited. -/
  | element {tag : String} {actions : List AttrAction} {content : Content} {data : ElementData}
      (kind : n.kind = .element data) (tag_eq : data.tag = tag) (actions_eq : data.actions = actions)
      (overlay : data.overlay = {}) (added : data.state.extraClasses = [])
      (expr : data.textExpr = content.expr?)
      (fixed : content.expr? = none → data.state.text = content.fixed o)
      (children : g.Row x (g.label x).frame content.steps n.children) :
      Stands Arises e o x n (.element tag actions content) (.state data.state)
  /-- A text node. -/
  | text {source : TextSource} {shown : String} (kind : n.kind = .text ⟨shown, source.dynamic?⟩)
      (fixed : ∀ s, source = .literal s → shown = o.shown s) (children : n.children = []) :
      Stands Arises e o x n (.text source) (.text shown)
  /-- A condition and the selected branch. -/
  | choice {branches : List Branch} {reactive : Bool} {data : ConditionData}
      (kind : n.kind = .condition data) (branches_eq : data.branches = branches)
      (reactive_eq : data.reactive = reactive)
      (children : g.Row x (g.label x).frame (Branch.steps branches data.selected) n.children) :
      Stands Arises e o x n (.choice branches reactive) (.branch data.selected)
  /-- A loop and its instances. -/
  | loop {spec : LoopSpec} {items : List Value} {insts : List Instance} {data : LoopData}
      (kind : n.kind = .loop data) (spec_eq : data.spec = spec) (arise : ∀ v ∈ items, Arises v)
      (state : data.state = spec.stateOf items insts)
      (showing : data.showingEmpty = (insts.isEmpty && spec.empty.isSome))
      (rounds : List.Forall₂ (g.Round e x spec) insts ((spec.rounds items).map (·.2)))
      (frames : (insts.map (·.frame)).Nodup) (children : g.Filled x spec insts n.children) :
      Stands Arises e o x n (.loop spec) (.items items)
  /-- A set and what its name is bound for. -/
  | set {name : String} {value : DynamicExpr} {body : Body} {data : SetData} {f : FrameId}
      (kind : n.kind = .set data) (name_eq : data.name = name) (value_eq : data.value = value)
      (body_eq : data.body = body) (arise : Arises data.current) (home : g.home f = x)
      (binds : e.frames.Binds f (g.label x).frame name data.current)
      (children : g.Row x (some f) body.steps n.children) :
      Stands Arises e o x n (.set name value body) (.value data.current)
  /-- The root and what is built below it. -/
  | top {body : Body} (children : g.Row x (g.label x).frame body.steps n.children) :
      Stands Arises e o x n (.fragment body) .none

end Plan

/-! ## Engines that are laid out -/

namespace Engine

/-- A node stands for its step. Unless it is stale, it shows what a look finds from where it is, and
covers what that reads. -/
def Settled (e : Engine) (b : Body) (Start : Outlook → Prop) (root : NodeId) (g : Plan) (stale : Prop)
    (x : NodeId) (n : RenderNode) : Prop :=
  let label := g.label x
  let o := e.outlook root label.frame
  ∃ sight, g.Stands (b.Arises Start) e o x n label.step sight ∧
    (¬stale → sight = label.step.look.result o ∧
      e.Covers root label.frame x (label.step.look.reads o))

/-- The tree is laid out by a plan. Nodes that are busy need not stand for their steps yet, and nodes
that are stale may show something else than what a look finds from where they are. -/
structure Laid (e : Engine) (b : Body) (Start : Outlook → Prop) (root : NodeId) (g : Plan)
    (Busy Stale : NodeId → Prop) : Prop where
  /-- The arena is valid. -/
  valid : e.nodes.Valid
  /-- The nodes are a tree. -/
  tree : e.shape.Tree root
  /-- The root is there. -/
  live_root : e.contains root = true
  /-- Frames enclose newer frames. -/
  ordered : e.frames.Ordered
  /-- No operation is asked to stop. -/
  cancel : e.cancel = {}
  /-- The body is built at this outlook. -/
  start : Start (e.outlook root none)
  /-- No variable can be called. -/
  plain : ∀ name v, (e.scopeOf root).bind (·.get? name) = some v → v.isCallable = false
  /-- The label of the root. -/
  top : g.label root = ⟨.fragment b, [], none⟩
  /-- Frames were made for nodes. -/
  homes : ∀ ⦃f fr⦄, e.frames.get? f = some fr → e.Known (g.home f)
  /-- All other nodes are where their labels say. -/
  placed : ∀ ⦃x n⦄, e.node? x = some n → x ≠ root → g.Placed e root x n
  /-- All nodes stand for their steps and show what is found. -/
  settled : ∀ ⦃x n⦄, e.node? x = some n → ¬Busy x → e.Settled b Start root g (Stale x) x n

variable {e : Engine} {root : NodeId}

/-- The root of a tree reads its own variables and no others. -/
theorem grounded_of_tree (ht : e.shape.Tree root) (hroot : e.contains root = true) :
    e.Grounded root := by
  obtain ⟨n, hn⟩ := contains_iff.1 hroot
  -- the contexts of the root are the root alone, so its variables are not those of another instance
  obtain ⟨-, hcontext, hcontexts⟩ := ht.root _ (shape_of_node? hn)
  rw [RenderNode.isContext_shape] at hcontext
  obtain ⟨data, hdata⟩ := Option.isSome_iff_exists.1 hcontext
  have hkind : n.kind = .context data := by
    cases hk : n.kind with
    | context data' =>
      rw [hk] at hdata
      exact congrArg RenderKind.context (Option.some.inj hdata)
    | _ =>
      rw [hk] at hdata
      cases hdata
  unfold RenderNode.contexts at hcontexts
  rw [List.cons_append, List.cons.injEq, List.append_eq_nil_iff] at hcontexts
  refine ⟨n, data, hn, hkind, ?_, hcontexts.1⟩
  have hskeleton : n.shape.kind.context? = some data.skeleton := by
    have := RenderKind.context?_skeleton n.kind
    rw [hdata] at this
    exact this
  have hshared := hcontexts.2.1
  rw [hskeleton, Option.bind_some] at hshared
  exact Option.toList_eq_nil_iff.1 hshared

namespace Laid

variable {b : Body} {Start : Outlook → Prop} {g : Plan} {Busy Busy' Stale Stale' : NodeId → Prop}
  {x p c id : NodeId} {n : RenderNode} {f : FrameId}

/-- The root reads its own variables and no others. -/
theorem grounded (h : e.Laid b Start root g Busy Stale) : e.Grounded root :=
  grounded_of_tree h.tree h.live_root

/-- A node below the root has a parent, of which it is a child. -/
theorem exists_parent (h : e.Laid b Start root g Busy Stale) (hn : e.node? x = some n)
    (hx : x ≠ root) : ∃ p np, n.parent = some p ∧ e.node? p = some np ∧ x ∈ np.children := by
  obtain ⟨p, m, hp, hm, hmem⟩ := h.tree.parent x _ (shape_of_node? hn) hx
  obtain ⟨np, hnp, rfl⟩ := node?_of_shape hm
  exact ⟨p, np, hp, hnp, hmem⟩

/-- Children are there, and know their parent. -/
theorem exists_child (h : e.Laid b Start root g Busy Stale) (hn : e.node? x = some n)
    (hc : c ∈ n.children) : c ≠ root ∧ ∃ nc, e.node? c = some nc ∧ nc.parent = some x := by
  obtain ⟨m, hm, hp⟩ := h.tree.child x _ c (shape_of_node? hn) hc
  obtain ⟨nc, hnc, rfl⟩ := node?_of_shape hm
  refine ⟨?_, nc, hnc, hp⟩
  rintro rfl
  have hnone := (h.tree.root _ hm).1
  rw [show nc.shape.parent = some x from hp] at hnone
  cases hnone

/-- What holds of the root, and of a node if of its parent, holds of all nodes. -/
theorem induct (h : e.Laid b Start root g Busy Stale) {P : NodeId → Prop} (top : P root)
    (below : ∀ x n p np, e.node? x = some n → x ≠ root → n.parent = some p → e.node? p = some np →
      x ∈ np.children → P p → P x) (hx : e.contains x = true) : P x := by
  obtain ⟨d, hd⟩ := h.tree.rank
  -- induction on the rank of the tree, which grows from parents to children
  suffices hall : ∀ k x, d x < k → e.contains x = true → P x from
    hall (d x + 1) x (Nat.lt_succ_self _) hx
  intro k
  induction k with
  | zero => exact fun x hx => absurd hx (Nat.not_lt_zero _)
  | succ k ih =>
    intro x hk hx
    obtain ⟨n, hn⟩ := contains_iff.1 hx
    by_cases hroot : x = root
    · rw [hroot]
      exact top
    · obtain ⟨p, np, hp, hnp, hmem⟩ := h.exists_parent hn hroot
      have hlt := hd p x ⟨_, shape_of_node? hn, hp⟩
      refine below x n p np hn hroot hp hnp hmem (ih p ?_ (contains_iff.2 ⟨np, hnp⟩))
      exact Nat.lt_of_lt_of_le hlt (Nat.le_of_lt_succ hk)

/-- The ancestors of a node are its parent and the ancestors of that. -/
theorem path (h : e.Laid b Start root g Busy Stale) (hn : e.node? x = some n)
    (hp : n.parent = some p) : (g.label x).path = p :: (g.label p).path := by
  have hx : x ≠ root := by
    rintro rfl
    have hnone := (h.tree.root _ (shape_of_node? hn)).1
    rw [show n.shape.parent = some p from hp] at hnone
    cases hnone
  exact (h.placed hn hx).path p hp

/-- The frame of a node is in the store. -/
theorem lt_frame (h : e.Laid b Start root g Busy Stale) (hx : e.contains x = true) :
    ∀ f, (g.label x).frame = some f → f < e.frames.frames.size := by
  refine h.induct (P := fun x => ∀ f, (g.label x).frame = some f → f < e.frames.frames.size) ?_ ?_ hx
  · intro f hf
    rw [h.top] at hf
    cases hf
  · intro x n p np hn hx hp _ _ ih f hf
    -- the frame is that of the parent, or a newer one inside of it
    rcases (h.placed hn hx).linked p hp with hsame | ⟨f', fr, hf', hfr, -, -⟩
    · exact ih f (hsame ▸ hf)
    · rw [hf] at hf'
      obtain rfl := Option.some.inj hf'
      exact FrameStore.lt_of_get? hfr

/-- The frames around a node were made for its ancestors. -/
theorem home_mem_path (h : e.Laid b Start root g Busy Stale) (hx : e.contains x = true)
    (hf : e.frames.Chain (g.label x).frame f) : g.home f ∈ (g.label x).path := by
  refine h.induct (P := fun x => e.frames.Chain (g.label x).frame f → g.home f ∈ (g.label x).path)
    ?_ ?_ hx hf
  · intro hf
    rw [h.top] at hf
    cases hf
  · intro x n p np hn hx hp _ _ ih hf
    rw [h.path hn hp]
    -- the chain is that of the parent, but for one frame if the parent has made one
    rcases (h.placed hn hx).linked p hp with hsame | ⟨f', fr, hf', hfr, hhome, hparent⟩
    · rw [hsame] at hf
      exact List.mem_cons_of_mem _ (ih hf)
    · rw [hf'] at hf
      cases hf with
      | head => exact hhome ▸ List.mem_cons_self
      | enclosing hfr' hrest =>
        obtain rfl := Option.some.inj (hfr.symm.trans hfr')
        rw [hparent] at hrest
        exact List.mem_cons_of_mem _ (ih hrest)

/-- The ancestors of a node end with those of each of them. -/
theorem path_suffix (h : e.Laid b Start root g Busy Stale) (hx : e.contains x = true)
    (hp : p ∈ (g.label x).path) : e.contains p = true ∧
      ∃ before, (g.label x).path = before ++ p :: (g.label p).path := by
  refine h.induct (P := fun x => p ∈ (g.label x).path → e.contains p = true ∧
    ∃ before, (g.label x).path = before ++ p :: (g.label p).path) ?_ ?_ hx hp
  · intro hp
    rw [h.top] at hp
    exact absurd hp List.not_mem_nil
  · intro x n q nq hn _ hq hnq _ ih hp
    rw [h.path hn hq] at hp ⊢
    rcases List.mem_cons.1 hp with rfl | hp
    · exact ⟨contains_iff.2 ⟨nq, hnq⟩, [], rfl⟩
    · obtain ⟨hlive, before, hbefore⟩ := ih hp
      exact ⟨hlive, q :: before, by rw [hbefore, List.cons_append]⟩

/-- Ancestors are nearer to the root. -/
theorem length_path_lt (h : e.Laid b Start root g Busy Stale) (hx : e.contains x = true)
    (hp : p ∈ (g.label x).path) : (g.label p).path.length < (g.label x).path.length := by
  obtain ⟨-, before, hbefore⟩ := h.path_suffix hx hp
  rw [hbefore, List.length_append, List.length_cons]
  omega

/-- No node is its own ancestor. -/
theorem not_mem_path (h : e.Laid b Start root g Busy Stale) (hx : e.contains x = true) :
    x ∉ (g.label x).path := fun hmem => Nat.lt_irrefl _ (h.length_path_lt hx hmem)

/-- What is under a node that is under another one is under that. -/
theorem under_trans (h : e.Laid b Start root g Busy Stale) (hx : e.contains x = true)
    (hcp : g.Under c p) (hpx : g.Under p x) : g.Under c x := by
  rcases hpx with rfl | hp
  · exact hcp
  · obtain ⟨-, before, hbefore⟩ := h.path_suffix hx hp
    refine .inr ?_
    rw [hbefore]
    rcases hcp with rfl | hc
    · exact List.mem_append_right _ List.mem_cons_self
    · exact List.mem_append_right _ (List.mem_cons_of_mem _ hc)

/-- Whatever is under a node but not the node itself is under one of its children. -/
theorem under_child (h : e.Laid b Start root g Busy Stale) (hn : e.node? id = some n)
    (hx : e.contains x = true) (hid : id ∈ (g.label x).path) : ∃ c ∈ n.children, g.Under c x := by
  refine h.induct (P := fun x => id ∈ (g.label x).path → ∃ c ∈ n.children, g.Under c x) ?_ ?_ hx hid
  · intro hid
    rw [h.top] at hid
    exact absurd hid List.not_mem_nil
  · intro x m p np hm _ hp hnp hmem ih hid
    rw [h.path hm hp] at hid
    rcases List.mem_cons.1 hid with rfl | hid
    · obtain rfl := Option.some.inj (hn.symm.trans hnp)
      exact ⟨x, hmem, .inl rfl⟩
    · obtain ⟨c, hc, hunder⟩ := ih hid
      refine ⟨c, hc, h.under_trans (contains_iff.2 ⟨m, hm⟩) hunder (.inr ?_)⟩
      rw [h.path hm hp]
      exact List.mem_cons_self

/-- Work on a node begins. -/
theorem busier (h : e.Laid b Start root g Busy Stale) (hBusy : ∀ x, Busy x → Busy' x) :
    e.Laid b Start root g Busy' Stale :=
  { h with settled := fun _ _ hn hx => h.settled hn fun hbusy => hx (hBusy _ hbusy) }

/-- Work on a node ends when it is settled. -/
theorem close (h : e.Laid b Start root g Busy Stale)
    (hid : ∀ ⦃x n⦄, e.node? x = some n → ¬Busy' x → Busy x ∨ Stale x ∧ ¬Stale' x →
      e.Settled b Start root g (Stale' x) x n) : e.Laid b Start root g Busy' Stale' where
  valid := h.valid
  tree := h.tree
  live_root := h.live_root
  ordered := h.ordered
  cancel := h.cancel
  start := h.start
  plain := h.plain
  top := h.top
  homes := h.homes
  placed := h.placed
  settled x n hn hx := by
    -- only nodes that were busy or stale and are so no longer have something to show
    by_cases hbusy : Busy x ∨ Stale x ∧ ¬Stale' x
    · exact hid hn hx hbusy
    · rw [not_or, not_and, not_not] at hbusy
      obtain ⟨sight, hstands, hshows⟩ := h.settled hn hbusy.1
      exact ⟨sight, hstands, fun hstale => hshows fun hx => hstale (hbusy.2 hx)⟩

end Laid
end Engine
end ReactiveView
