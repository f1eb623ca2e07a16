import ReactiveView.Proofs.Selective.Changes
import ReactiveView.Proofs.Selective.Frames
import ReactiveView.Proofs.Selective.Readings

/-!
# Evaluation in a single component

In a tree with one component instance, which has variables of its own (`Engine.Grounded`), nodes see
its variables and the frames around them (`Engine.vars`). There a readable expression has the value
that it has over these variables, and evaluating it does nothing to the tree but record what it reads
(`Render.evaluateAt_gives`): the names that no frame binds, if the evaluation is tracked.

An operation that only evaluates computes a result from what a node sees around it
(`Act.Computes`).
-/

namespace ReactiveView

/-- What a node sees around it. -/
structure Outlook where
  /-- The variables. -/
  vars : Vars
  /-- The translations of texts. -/
  translator : Translator
  /-- The place from which assets are served. -/
  assets : String
  /-- The name of the component. -/
  component : String

namespace Engine

variable {e e' e₁ e₂ : Engine} {root id x : NodeId} {M M' R R' : NodeId → Prop}
  {frame : Option FrameId}

/-! ## Revisions -/

/-- Only certain nodes have been altered, and the tree has the shape of before. -/
structure Revises (M R : NodeId → Prop) (e e' : Engine) : Prop extends Alters M R e e' where
  /-- The shape of the tree stays. -/
  shape : e'.shape = e.shape

namespace Revises

/-- Nothing has changed. -/
theorem refl (M R : NodeId → Prop) (e : Engine) : e.Revises M R e := ⟨.refl M R e, rfl⟩

/-- One revision after another. -/
theorem trans (h₁ : e.Revises M R e₁) (h₂ : e₁.Revises M R e₂) : e.Revises M R e₂ :=
  ⟨h₁.toAlters.trans h₂.toAlters, h₂.shape.trans h₁.shape⟩

/-- More nodes may be altered. -/
theorem mono (h : e.Revises M R e') (hM : ∀ x, M x → M' x)
    (hR : ∀ x, R x → R' x) : e.Revises M' R' e' :=
  ⟨h.toAlters.mono hM hR, h.shape⟩

/-- The nodes of before are there. -/
theorem contains_iff (h : e.Revises M R e') : e'.contains x = true ↔ e.contains x = true := by
  rw [contains_iff_shape, contains_iff_shape, h.shape]

/-- A node that was there stays, alike unless it may be altered. -/
theorem kept (h : e.Revises M R e') {n : RenderNode} (hn : e.node? x = some n) :
    ∃ n', e'.node? x = some n' ∧ n'.place = n.place ∧ n'.children = n.children ∧
      (¬M x → n'.unread = n.unread) := by
  obtain ⟨n', hn'⟩ := Engine.contains_iff.1 (h.contains_iff.2 (Engine.contains_iff.2 ⟨n, hn⟩))
  obtain ⟨m, hm, hplace, hsame⟩ := h.node hn'
  obtain rfl := Option.some.inj (hn.symm.trans hm)
  refine ⟨n', hn', hplace, ?_, hsame⟩
  -- children are compared through the shape, which no evaluation breaks
  have hshape := congrFun h.shape x
  rw [shape_of_node? hn, shape_of_node? hn', Option.some.injEq] at hshape
  exact congrArg (·.children) hshape

/-- What is no component instance is what it was, unless it may be altered. -/
theorem kind (h : e.Revises M R e') {n : RenderNode} (hn : e.node? x = some n) {kind : RenderKind}
    (hkind : n.kind = kind) (hM : ¬M x) (hcontext : kind.context? = none) :
    ∃ n', e'.node? x = some n' ∧ n'.kind = kind := by
  obtain ⟨n', hn', -, -, hsame⟩ := h.kept hn
  subst hkind
  exact ⟨n', hn', RenderKind.eq_of_unread (congrArg (·.kind) (hsame hM)) hcontext⟩

/-- What was recorded stays. -/
theorem recorded (h : e.Revises M R e') (hx : ¬R x) {c : NodeId} {k : String}
    (hlive : e.contains x = true) (hreads : e.Reads c k x) : e'.Reads c k x := by
  have hc : e.contains c = true := by
    obtain ⟨index, hindex, -⟩ := hreads
    obtain ⟨n, hn, -⟩ := Option.bind_eq_some_iff.1 hindex
    exact Engine.contains_iff.2 ⟨n, hn⟩
  exact h.reads (h.contains_iff.2 hc) (h.contains_iff.2 hlive) hx hreads

/-- Changes that keep all that evaluation cannot break leave the shape. -/
theorem of_alters (h : e.Alters M R e')
    (hstable : ∀ I : Engine → Prop, EvaluationStable I → I e → I e') : e.Revises M R e' :=
  ⟨h, hstable _ (shape_stable e.shape) rfl⟩

/-- Records of reads. -/
theorem track (owner : NodeId) (name : String) (node : NodeId) :
    e.Revises M R (e.track owner name node) :=
  of_alters (.track owner name node) fun _ h he => h.tracking.track owner name trivial he

/-- Problems. -/
theorem diagnose (ctx : NodeId) (node : Option NodeId) (message : String) (line : Option Nat) :
    e.Revises M R (e.diagnose ctx node message line) :=
  of_alters (.diagnose ctx node message line) fun _ h he =>
    h.tracking.diagnose ctx node message line he

/-- Reports. -/
theorem report (id : NodeId) : e.Revises M R (e.report id) :=
  of_alters (.report id) fun _ h he => h.report he

/-- Dropping the records of the reads of a node. -/
theorem purge {node : NodeId} (hR : R node) : e.Revises M R (e.purge node) :=
  of_alters (.purge hR) fun _ h he => h.purge node he

/-- Several revisions. -/
theorem foldl {α : Type} {f : Engine → α → Engine} {xs : List α}
    (hf : ∀ a ∈ xs, ∀ e : Engine, e.Revises M R (f e a)) :
    ∀ e : Engine, e.Revises M R (xs.foldl f e) := by
  induction xs with
  | nil => exact fun e => .refl M R e
  | cons a xs ih =>
    exact fun e => (hf a List.mem_cons_self e).trans
      (ih (fun a' ha' => hf a' (List.mem_cons_of_mem a ha')) (f e a))

/-- Marking a node as moved. -/
theorem flagRebind (id : NodeId) : e.Revises M R (e.flagRebind id) := by
  have hshape : (e.modifyNode id fun n => { n with flags := { n.flags with rebind := true } }).shape =
      e.shape := shape_modifyNode_of_same fun _ _ => rfl
  exact ⟨.flagRebind id, hshape⟩

/-- Marking subtrees as moved. -/
theorem markRebind (ids : List NodeId) : e.Revises M R (ids.foldl Engine.markRebind e) :=
  foldl (fun _ _ e => foldl (fun id _ _ => flagRebind id) e) e

end Revises

/-- Nothing was done but recording reads and problems. -/
abbrev Evaluates (e e' : Engine) : Prop := e.Revises (fun _ => False) (fun _ => False) e'

/-! ## What nodes see -/

/-- A component instance reads its own variables and no others. -/
def Grounded (e : Engine) (root : NodeId) : Prop := ∃ n data, e.node? root = some n ∧
  n.kind = .context data ∧ data.sharedWith = none ∧ n.context = root

/-- The variables that are seen in a frame of a component instance. -/
def vars (e : Engine) (root : NodeId) (frame : Option FrameId) : Vars := fun x =>
  if x = "forloop" then none
  else (e.frames.lookup? frame x).or ((e.scopeOf root).bind (·.get? x))

/-- What is seen in a frame of a component instance. -/
def outlook (e : Engine) (root : NodeId) (frame : Option FrameId) : Outlook :=
  ⟨e.vars root frame, e.translator, e.assets, e.contextName root⟩

/-- Names that a node has read are recorded, as far as no frame binds them. -/
def Covers (e : Engine) (root : NodeId) (frame : Option FrameId) (id : NodeId)
    (names : List String) : Prop :=
  ∀ x ∈ names, e.frames.lookup? frame x = none → e.Reads root x id

/-- Nodes in the same place are the same component instance. -/
theorem context?_congr {n n' : RenderNode} (hn : e.node? x = some n) (hn' : e'.node? x = some n')
    (h : n'.place = n.place) :
    (e'.context? x).map ContextData.unread = (e.context? x).map ContextData.unread := by
  unfold context?
  rw [hn, hn']
  exact congrArg (·.instance?) h

/-- The data of a component instance in the same place. -/
theorem Alters.context? (h : e.Alters M R e') (hx : e'.contains x = true) :
    (e'.context? x).map ContextData.unread = (e.context? x).map ContextData.unread := by
  obtain ⟨n', hn'⟩ := contains_iff.1 hx
  obtain ⟨n, hn, hplace, -⟩ := h.node hn'
  exact context?_congr hn hn' hplace

/-- What is recorded of a component instance does not bear on its variables. -/
theorem scopeOf_congr (h : (e'.context? x).map ContextData.unread =
    (e.context? x).map ContextData.unread) : e'.scopeOf x = e.scopeOf x := by
  have hscope (data : Option ContextData) : data.map (·.scope) =
      (data.map ContextData.unread).map (·.scope) := by
    cases data <;> rfl
  unfold scopeOf
  rw [hscope, h, ← hscope]

/-- Nor on its name. -/
theorem contextName_congr (h : (e'.context? x).map ContextData.unread =
    (e.context? x).map ContextData.unread) : e'.contextName x = e.contextName x := by
  have hname (data : Option ContextData) : data.map (·.name) =
      (data.map ContextData.unread).map (·.name) := by
    cases data <;> rfl
  unfold contextName
  rw [hname, h, ← hname]

/-- A component instance that stays in its place reads its own variables still. -/
theorem Alters.grounded (h : e.Alters M R e') (hroot : e'.contains root = true)
    (hg : e.Grounded root) : e'.Grounded root := by
  obtain ⟨n', hn'⟩ := contains_iff.1 hroot
  obtain ⟨m, hm, hplace, -⟩ := h.node hn'
  obtain ⟨n, data, hn, hkind, hshared, hctx⟩ := hg
  obtain rfl := Option.some.inj (hm.symm.trans hn)
  -- the place of a component instance holds its data, but for what is recorded of it
  have hinstance : n'.kind.context?.map ContextData.unread = some data.unread := by
    have hplace := congrArg (·.instance?) hplace
    simpa [RenderNode.place, hkind, RenderKind.context?] using hplace
  obtain ⟨data', hdata', hunread⟩ := Option.map_eq_some_iff.1 hinstance
  refine ⟨n', data', hn', ?_, ?_, ?_⟩
  · cases hk : n'.kind with
    | context data'' =>
      rw [hk] at hdata'
      exact congrArg RenderKind.context (Option.some.inj hdata')
    | _ =>
      rw [hk] at hdata'
      cases hdata'
  · have := congrArg (·.sharedWith) hunread
    exact this.trans hshared
  · exact (congrArg (·.context) hplace).trans hctx

/-- What is seen stays, as long as the component instance does. -/
theorem Alters.vars (h : e.Alters M R e') (hroot : e'.contains root = true) :
    e'.vars root frame = e.vars root frame := by
  unfold Engine.vars
  rw [h.frames, scopeOf_congr (h.context? hroot)]

/-- What is seen stays, as long as the component instance does. -/
theorem Alters.outlook (h : e.Alters M R e') (hroot : e'.contains root = true) :
    e'.outlook root frame = e.outlook root frame := by
  unfold Engine.outlook
  rw [h.vars hroot, contextName_congr (h.context? hroot),
    show e'.translator = e.translator from congrArg (·.translator) h.setup,
    show e'.assets = e.assets from congrArg (·.assets) h.setup]

/-- Names that are covered stay covered as long as no record of the node is dropped. -/
theorem Covers.revises {names : List String} (hcovers : e.Covers root frame id names)
    (h : e.Revises M R e') (hid : e.contains id = true) (hR : ¬R id) :
    e'.Covers root frame id names := by
  intro x hx hfree
  rw [h.frames] at hfree
  exact h.recorded hR hid (hcovers x hx hfree)

/-- A component instance that reads its own variables is alive. -/
theorem Grounded.contains (h : e.Grounded root) : e.contains root = true := by
  obtain ⟨n, data, hn, -⟩ := h
  exact contains_iff.2 ⟨n, hn⟩

/-- It is a component instance. -/
theorem Grounded.context? (h : e.Grounded root) :
    ∃ data, e.context? root = some data ∧ data.sharedWith = none := by
  obtain ⟨n, data, hn, hkind, hshared, -⟩ := h
  refine ⟨data, ?_, hshared⟩
  unfold Engine.context?
  rw [hn, Option.bind_some, hkind]
  rfl

/-- It has variables of its own. -/
theorem Grounded.scopeOwner (h : e.Grounded root) : e.scopeOwner root = root := by
  obtain ⟨data, hdata, hshared⟩ := h.context?
  unfold Engine.scopeOwner
  rw [hdata, Option.bind_some, hshared]
  rfl

/-- It sees no variables of others. -/
theorem Grounded.findVar (h : e.Grounded root) (name : String) :
    e.findVar root name = ((e.scopeOf root).bind (·.get? name)).map fun v => (root, v) := by
  -- the chain of callers ends at once, at a context that is its own caller
  have hcallers : e.callers root = [root] := by
    obtain ⟨n, data, hn, -, -, hctx⟩ := h
    unfold callers chainBound callersIn
    rw [hn]
    exact if_pos hctx
  unfold Engine.findVar
  rw [hcallers, List.findSome?_cons, List.findSome?_nil]
  dsimp only
  rw [h.scopeOwner]
  cases (e.scopeOf root).bind (·.get? name) <;> rfl

/-- Looking an ordinary name up gives what is seen, and records it unless a frame binds it. -/
theorem Grounded.lookupAt (h : e.Grounded root) {site : Site} (hctx : site.ctx = root)
    {name : String} (hname : isPlainName name = true) :
    e.lookupAt site name = (e.vars root site.frame name,
      if e.frames.lookup? site.frame name = none then e.trackAt site root name else e) := by
  unfold isPlainName at hname
  simp only [Bool.and_eq_true, bne_iff_ne] at hname
  obtain ⟨⟨-, hrefs⟩, hforloop⟩ := hname
  unfold Engine.lookupAt vars
  -- frames come before the variables, and only a name that no frame binds is recorded
  rw [if_neg hforloop, hctx]
  cases e.frames.lookup? site.frame name with
  | some v => rfl
  | none =>
    dsimp only
    rw [if_neg hrefs, h.findVar, Option.none_or, if_pos rfl, h.scopeOwner]
    cases (e.scopeOf root).bind (·.get? name) <;> rfl

end Engine

/-! ## Evaluation -/

section

variable {re : Reentry} {site : Site} {root : NodeId} {o : Outlook}

/-- A name that was read at a site is recorded, unless a frame binds it. -/
def Site.Recorded (site : Site) (root : NodeId) (e : Engine) (name : String) : Prop :=
  ∀ id, site.track = some id → e.frames.lookup? site.frame name = none → e.Reads root name id

/-- An engine in which certain things are seen from a site, and which has recorded certain reads. -/
structure Site.Ready (site : Site) (root : NodeId) (o : Outlook) (e : Engine) (log : List String) :
    Prop where
  /-- The context has variables of its own. -/
  grounded : e.Grounded root
  /-- What is seen. -/
  outlook : e.outlook root site.frame = o
  /-- The node whose reads are recorded is there. -/
  tracked : ∀ id, site.track = some id → e.contains id = true
  /-- What was read. -/
  recorded : ∀ name ∈ log, site.Recorded root e name

/-- What only evaluates leaves a site ready. -/
theorem Site.Ready.revises {e e' : Engine} {log : List String} (h : site.Ready root o e log)
    (he : e.Evaluates e') : site.Ready root o e' log := by
  have hroot := he.contains_iff.2 h.grounded.contains
  refine ⟨he.toAlters.grounded hroot h.grounded, (he.toAlters.outlook hroot).trans h.outlook,
    fun id hid => he.contains_iff.2 (h.tracked id hid), fun name hname id hid hfree => ?_⟩
  rw [he.frames] at hfree
  exact he.recorded (fun h => h) (h.tracked id hid) (h.recorded name hname id hid hfree)

/-- Evaluation in the tree at a site, and evaluation over the variables that the site sees. -/
def Site.reading (site : Site) (root : NodeId) (o : Outlook) : Correspondence RenderM Reading where
  rel x x' := ∀ ⦃e log a log'⦄, x' log = some (a, log') → site.Ready root o e log →
    ∃ e', x.Gives e a e' ∧ e.Evaluates e' ∧ site.Ready root o e' log'
  rel_pure a e log b log' h hready := by
    cases h
    exact ⟨e, RenderM.gives_pure.2 ⟨rfl, rfl⟩, .refl _ _ e, hready⟩
  rel_bind := by
    intro α β x x' f f' hx hf e log b log' h hready
    obtain ⟨⟨a, log₁⟩, hxa, hfb⟩ := Option.bind_eq_some_iff.1 h
    obtain ⟨e₁, hgives, hrevises, hready⟩ := hx hxa hready
    obtain ⟨e₂, hgives', hrevises', hready⟩ := hf a hfb hready
    exact ⟨e₂, RenderM.gives_bind.2 ⟨a, e₁, hgives, hgives'⟩, hrevises.trans hrevises', hready⟩
  rel_map := by
    intro α β x x' f hx e log b log' h hready
    obtain ⟨⟨a, log₁⟩, hxa, hb⟩ := Option.bind_eq_some_iff.1 h
    cases hb
    obtain ⟨e₁, hgives, hrevises, hready⟩ := hx hxa hready
    refine ⟨e₁, ?_, hrevises, hready⟩
    rw [map_eq_pure_bind]
    exact RenderM.gives_bind.2 ⟨a, e₁, hgives, RenderM.gives_pure.2 ⟨rfl, rfl⟩⟩

/-- Recording a read at a site. -/
theorem Site.Ready.trackAt {e : Engine} {log : List String} (h : site.Ready root o e log)
    {name : String} (hname : isTrackedKey name = true) :
    e.Evaluates (e.trackAt site root name) ∧
      site.Ready root o (e.trackAt site root name) (log ++ [name]) := by
  unfold Engine.trackAt
  cases htrack : site.track with
  | none =>
    -- a site that tracks nothing has nothing to record
    refine ⟨.refl _ _ e, h.grounded, h.outlook, h.tracked, fun n hn => ?_⟩
    intro id hid
    rw [htrack] at hid
    cases hid
  | some node =>
    have hrevises : e.Evaluates (e.track root name node) := .track root name node
    have hready := h.revises hrevises
    refine ⟨hrevises, hready.grounded, hready.outlook, hready.tracked, fun n hn => ?_⟩
    rcases List.mem_append.1 hn with hn | hn
    · exact hready.recorded n hn
    · rw [List.mem_singleton.1 hn]
      intro id hid _
      rw [htrack] at hid
      obtain rfl := Option.some.inj hid
      obtain ⟨data, hdata, -⟩ := h.grounded.context?
      exact Engine.reads_track (by rw [hdata]; rfl) hname node

/-- The tree as an environment is that of the variables that are seen. -/
theorem Site.env_reading (hctx : site.ctx = root) :
    (site.env re).Related (site.reading root o) o.vars.env where
  lookup name := by
    intro e log a log' h hready
    change (if isPlainName name then _ else _) = _ at h
    split at h
    · rename_i hname
      cases h
      have htracked : isTrackedKey name = true := by
        unfold isPlainName at hname
        simp only [Bool.and_eq_true] at hname
        exact hname.1.1
      have hlookup := hready.grounded.lookupAt hctx hname
      rw [show e.vars root site.frame = o.vars from congrArg (·.vars) hready.outlook] at hlookup
      refine ⟨_, RenderM.gives_step.2 hlookup, ?_⟩
      split
      · exact hready.trackAt htracked
      · rename_i hbound
        refine ⟨.refl _ _ e, hready.grounded, hready.outlook, hready.tracked, fun n hn => ?_⟩
        rcases List.mem_append.1 hn with hn | hn
        · exact hready.recorded n hn
        · rw [List.mem_singleton.1 hn]
          exact fun _ _ hfree => absurd hfree hbound
    · cases h
  -- what follows is no part of a readable expression and has no outcome over the variables, except
  -- members, which a value that is no node does not have
  has name := by
    intro e log a log' h
    cases h
  assign name v := by
    intro e log a log' h
    cases h
  this := by
    intro e log a log' h
    cases h
  member target name := by
    intro e log a log' h hready
    change (if target.asNode?.isSome then _ else _) = _ at h
    split at h
    · cases h
    · rename_i hnode
      cases h
      have hmember : e.memberAt site target name = (none, e) := by
        unfold Engine.memberAt
        rw [Option.not_isSome_iff_eq_none.1 hnode]
      exact ⟨e, RenderM.gives_step.2 hmember, .refl _ _ e, hready⟩
  isIntrinsic _ := rfl
  callIntrinsic name args := by
    intro e log a log' h
    cases h
  interrupted := by
    intro e log a log' h
    cases h
  freshSerial := by
    intro e log a log' h
    cases h

/-- What was read before and what is read now. -/
theorem Site.Ready.append {e : Engine} {log log' : List String} (h : site.Ready root o e log)
    (h' : site.Ready root o e log') : site.Ready root o e (log ++ log') :=
  ⟨h.grounded, h.outlook, h.tracked, fun name hname =>
    (List.mem_append.1 hname).elim (h.recorded name) (h'.recorded name)⟩

/-- A readable expression has the value that it has over the variables that are seen. What it reads
is recorded if the site is tracked, and nothing else happens to the tree. -/
theorem Render.evaluateAt_gives {e e' : Engine} {r : Except EngineError Value} {ex : DynamicExpr}
    (hctx : site.ctx = root) {log : List String} (hready : site.Ready root o e log)
    (ho : o.vars.Inert) (hread : ex.expr.readable = true)
    (h : (evaluateAt re site ex).Gives e r e') :
    r = .ok (o.vars.value ex.expr) ∧ e.Evaluates e' ∧
      site.Ready root o e' (log ++ o.vars.reads ex.expr) := by
  have hblank : site.Ready root o e [] :=
    ⟨hready.grounded, hready.outlook, hready.tracked, fun _ hn => absurd hn List.not_mem_nil⟩
  -- it is enough to know what is recorded of this evaluation
  suffices hnew : r = .ok (o.vars.value ex.expr) ∧ e.Evaluates e' ∧
      site.Ready root o e' (o.vars.reads ex.expr) by
    obtain ⟨hr, hrevises, hready'⟩ := hnew
    exact ⟨hr, hrevises, (hready.revises hrevises).append hready'⟩
  obtain ⟨outcome, hrun, hok, herror, -⟩ := Vars.run_eq ho hread
  have henv : (site.env re).Related (site.reading root o) o.vars.env := Site.env_reading hctx
  obtain ⟨e₁, hgives, hrevises, hready₁⟩ := Interpreter.eval_related henv ex.expr hrun hblank
  -- the evaluation has this one outcome
  have hfirst : ∀ {r₁ e₂}, (Act.evaluating (Interpreter.eval (site.env re) ex.expr)).Gives e r₁ e₂ →
      r₁ = .ok outcome ∧ e₂ = e₁ := by
    intro r₁ e₂ h₂
    obtain ⟨a, rfl, hrun₂⟩ := Act.gives_evaluating.1 h₂
    obtain ⟨ha, he⟩ := Prod.mk.inj (Option.some.inj (hrun₂.symm.trans hgives))
    exact ⟨congrArg Except.ok ha, he⟩
  rcases Act.gives_bind.1 h with ⟨a, e₂, h₁, h₂⟩ | ⟨err, h₁, -⟩
  · obtain ⟨ha, rfl⟩ := hfirst h₁
    obtain rfl := Except.ok.inj ha
    cases a with
    | ok v =>
      obtain ⟨rfl, rfl⟩ := Act.gives_pure.1 h₂
      exact ⟨by rw [hok v rfl], hrevises, hready₁⟩
    -- an expression that fails is worth null, and a problem is noted
    | error err =>
      obtain ⟨hinterrupted, hnull⟩ := herror err rfl
      unfold recover at h₂
      dsimp only at h₂
      rw [hinterrupted] at h₂
      rcases Act.gives_bind.1 h₂ with ⟨u, e₃, h₃, h₄⟩ | ⟨err', h₃, -⟩
      · obtain ⟨-, rfl⟩ := Act.gives_change.1 h₃
        obtain ⟨rfl, rfl⟩ := Act.gives_pure.1 h₄
        have hdiagnosed : e₂.Evaluates _ :=
          .diagnose site.ctx site.this err.cause.message err.line
        exact ⟨by rw [hnull], hrevises.trans hdiagnosed, hready₁.revises hdiagnosed⟩
      · cases (Act.gives_change.1 h₃).1
  · cases (hfirst h₁).1

end
end ReactiveView
