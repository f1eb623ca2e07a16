import ReactiveView.Proofs.Structure.Sessions
import ReactiveView.Render.Outline

/-!
# Component instances that refuse

The initial hook of a component may refuse, or fail, and then its code block fails
(`Render.gives_runCodeBlock`). That failure ends the building of everything around the code block,
  up
to the nearest component instance that is being built. `Render.buildComponent_settles` says what
becomes of that one: unless it was set up to the end, no trace of it is left, and building goes on
around it; whatever happens, nothing is taken away that was there before. So an instance that was
built has passed the initial hook of each code block at the top of its template.

The nearest instance that is being built need not be the one whose hook refuses. Content for a slot
is built inside of the component that has the slot, and the branch of a condition may be built after
the instance is finished.
-/

namespace ReactiveView
namespace Render

open Act

variable (re : Reentry)

/-! ## Code blocks -/

/-- Run the code of a code block, for the first time. -/
def runCode (body : List Stmt) (line : Nat) (cursor : Cursor) : Act Unit := do
  Act.change (·.modifyContext cursor.ctx fun data => { data with executed := true })
  let site : Site := ⟨cursor.ctx, cursor.frame, some cursor.ctx, none⟩
  let outcome ← Act.evaluating (Interpreter.exec (site.env re) line body)
  discard (recover (outcome.map (·.getD .null)) cursor.ctx none)

/-- Call the hook of a new start. -/
def restart (ctx : NodeId) : Act Unit := callOwnHook re ctx (some ctx) "on_restart" []

/-- Go on after the initial hook if it lets. -/
def goOn (ctx : NodeId) (lets : Bool) : Act Unit :=
  if lets then restart re ctx
  else do throw (.initFailed (← Act.read (·.contextName ctx)))

/-- Whether the code of a context was run. -/
def executed (e : Engine) (ctx : NodeId) : Bool :=
  ((e.context? ctx).map (·.executed)).getD true

/-- A code block runs its code, and then the initial hook, which decides about what follows. -/
theorem runCodeBlock_eq (body : List Stmt) (line : Nat) (c : Cursor) :
    runCodeBlock re body line c = (do
      if ← Act.read fun e => executed e c.ctx then restart re c.ctx
      else
        runCode re body line c
        goOn re c.ctx (← callInit re c.ctx)) := by
  unfold runCodeBlock executed
  refine bind_congr fun done => ?_
  cases done with
  | true => rfl
  | false =>
    unfold runCode
    simp only [Bool.not_false, if_true, bind_assoc, Bool.false_eq_true, if_false]
    refine bind_congr fun _ => bind_congr fun outcome => bind_congr fun _ => bind_congr fun lets =>
      ?_
    unfold goOn
    cases lets with
    | true => rfl
    | false => rfl

variable {re} {body : List Stmt} {line : Nat} {c : Cursor} {e e₁ e₂ e' : Engine}

/-- A code block that succeeds for the first time has run its code, and then the initial hook has let
building go on. -/
theorem lets_of_runCodeBlock (h : (runCodeBlock re body line c).Gives e (.ok ()) e')
    (hnew : executed e c.ctx = false) : ∃ e₁ e₂, (runCode re body line c).Gives e (.ok ()) e₁ ∧
      (callInit re c.ctx).Gives e₁ (.ok true) e₂ ∧ (restart re c.ctx).Gives e₂ (.ok ()) e' := by
  rw [runCodeBlock_eq, gives_read_bind, hnew] at h
  obtain ⟨⟨⟩, e₁, hcode, hrest⟩ | ⟨err, -, h⟩ := gives_bind.1 h
  · obtain ⟨lets, e₂, hinit, hrest⟩ | ⟨err, -, h⟩ := gives_bind.1 hrest
    · cases lets with
      | true => exact ⟨e₁, e₂, hcode, hinit, hrest⟩
      | false => cases (gives_throw.1 (gives_read_bind.1 hrest)).1
    · cases h
  · cases h

/-- Where the initial hook refuses, the code block fails. -/
theorem runCodeBlock_of_refused (hnew : executed e c.ctx = false)
    (hcode : (runCode re body line c).Gives e (.ok ()) e₁)
    (hinit : (callInit re c.ctx).Gives e₁ (.ok false) e₂) :
    (runCodeBlock re body line c).Gives e (.error (.initFailed (e₂.contextName c.ctx))) e₂ := by
  rw [runCodeBlock_eq, gives_read_bind, hnew]
  exact gives_bind.2 (.inl ⟨(), e₁, hcode, gives_bind.2 (.inl ⟨false, e₂, hinit,
    gives_read_bind.2 (gives_throw.2 ⟨rfl, rfl⟩)⟩)⟩)

/-! ## Templates -/

/-- The steps of a body keep the context. -/
theorem ctx_of_runStep {step : Step} {c' : Cursor}
    (h : (runStep re c step).Gives e (.ok c') e') : c'.ctx = c.ctx := by
  have hreturn {x : Act Unit} {c₀ : Cursor} {e : Engine}
      (h : Act.Gives (do x; return c₀) e (.ok c') e') : c' = c₀ := by
    obtain ⟨-, e₁, -, h⟩ | ⟨err, -, h⟩ := gives_bind.1 h
    · exact Except.ok.inj (gives_pure.1 h).1
    · cases h
  cases step with
  | component name actions slots =>
    obtain ⟨name, e₁, -, h⟩ | ⟨err, -, h⟩ := gives_bind.1 h
    · rw [hreturn h]
    · cases h
  | scope bindings inner =>
    obtain ⟨values, e₁, -, h⟩ | ⟨err, -, h⟩ := gives_bind.1 h
    · obtain ⟨frame, e₂, -, h⟩ | ⟨err, -, h⟩ := gives_bind.1 h
      · rw [hreturn h]
        rfl
      · cases h
    · cases h
  | _ => rw [hreturn h]

/-- A run of steps before others. -/
theorem gives_foldlM_append {before later : List Step} {c c' : Cursor} {e e' : Engine} :
    ((before ++ later).foldlM (runStep re) c).Gives e (.ok c') e' ↔
      ∃ c₁ e₁, (before.foldlM (runStep re) c).Gives e (.ok c₁) e₁ ∧
        (later.foldlM (runStep re) c₁).Gives e₁ (.ok c') e' := by
  rw [List.foldlM_append, gives_bind]
  constructor
  · rintro (⟨c₁, e₁, h₁, h₂⟩ | ⟨err, -, h⟩)
    · exact ⟨c₁, e₁, h₁, h₂⟩
    · cases h
  · rintro ⟨c₁, e₁, h₁, h₂⟩
    exact .inl ⟨c₁, e₁, h₁, h₂⟩

/-- The steps of a body keep the context. -/
theorem ctx_of_foldlM (steps : List Step) {c c' : Cursor} {e e' : Engine}
    (h : (steps.foldlM (runStep re) c).Gives e (.ok c') e') : c'.ctx = c.ctx := by
  induction steps generalizing c e with
  | nil => rw [Except.ok.inj (gives_pure.1 h).1]
  | cons step steps ih =>
    rw [List.foldlM_cons] at h
    obtain ⟨c₁, e₁, h₁, h₂⟩ | ⟨err, -, h⟩ := gives_bind.1 h
    · exact (ih h₂).trans (ctx_of_runStep h₁)
    · cases h

/-- Building at a cursor comes to a code block behind some steps, and the code block lets building go
on: it succeeds, and if the code of the context is run there, the initial hook has not refused. -/
def Passes (re : Reentry) (c : Cursor) (before : List Step) (body : List Stmt) (line : Nat)
    (e : Engine) : Prop :=
  ∃ c₁ e₁ e₂, (before.foldlM (runStep re) c).Gives e (.ok c₁) e₁ ∧ c₁.ctx = c.ctx ∧
    (runCodeBlock re body line c₁).Gives e₁ (.ok ()) e₂ ∧ (executed e₁ c.ctx = false →
      ∃ e₃ e₄, (runCode re body line c₁).Gives e₁ (.ok ()) e₃ ∧
        (callInit re c.ctx).Gives e₃ (.ok true) e₄ ∧ (restart re c.ctx).Gives e₄ (.ok ()) e₂)

/-- A body that was built has passed each code block at its top. -/
theorem passes_of_buildBody {b : Body} (h : (buildBody re b c).Gives e (.ok ()) e')
    {before later : List Step} (hsteps : b.steps = before ++ .code body line :: later) :
    Passes re c before body line e := by
  unfold buildBody at h
  obtain ⟨c', h, -⟩ | ⟨err, -, h⟩ := gives_discard.1 h
  · rw [hsteps] at h
    obtain ⟨c₁, e₁, hbefore, hrest⟩ := gives_foldlM_append.1 h
    have hctx := ctx_of_foldlM before hbefore
    rw [List.foldlM_cons] at hrest
    obtain ⟨c₂, e₂, hstep, -⟩ | ⟨err, -, h⟩ := gives_bind.1 hrest
    · obtain ⟨⟨⟩, e₂', hcode, -⟩ | ⟨err, -, h⟩ := gives_bind.1 hstep
      · refine ⟨c₁, e₁, e₂', hbefore, hctx, hcode, fun hnew => ?_⟩
        rw [← hctx] at hnew ⊢
        exact lets_of_runCodeBlock hcode hnew
      · cases h
    · cases h
  · cases h

/-! ## Component instances -/

/-- Creating a node does not end in the refusal of an initial hook. -/
theorem alloc_not_refused {kind : RenderKind} {flags : NodeFlags} {context : String} :
    ¬(alloc kind c flags).Gives e (.error (.initFailed context)) e' := by
  intro h
  obtain ⟨-, e₁, -, h⟩ | ⟨err, h, herr⟩ := gives_bind.1 h
  · cases (gives_step.1 h).1
  · obtain ⟨stop, e₁, -, h⟩ | ⟨err', h, herr'⟩ := gives_bind.1 h
    · split at h
      · obtain rfl := Except.error.inj herr
        cases (gives_throw.1 h).1
      · cases (gives_pure.1 h).1
    · cases (gives_step.1 h).1

/-- An instance that was set up has built its template, which evaluation has left as it was. -/
theorem runRoutine_of_setupComponent (hre : re.Builds) {id : NodeId} {actions : List AttrAction}
    (h : (setupComponent re id actions c).Gives e (.ok ()) e') (hcalm : e'.Calm)
    (hvalid : e.nodes.Valid) :
    ∃ e₁ e₂, e₁.view = e.view ∧ (runRoutine re id c.ns).Gives e₁ (.ok ()) e₂ := by
  -- every step before the template is an evaluation, which keeps the view
  obtain ⟨I, hI, hen, hstart, hend⟩ : ∃ I : Engine → Prop, Engine.EvaluationStable I ∧
      re.EntersKeeping I ∧ I e ∧ ∀ e₁, I e₁ → e₁.Calm → e₁.view = e.view :=
    ⟨_, Engine.view_stable e.view, Reentry.enters_wild (hre.operates _ Engine.calm_stable.closed)
      fun _ hwild hcalm => absurd hcalm hwild, fun _ => ⟨hvalid, rfl⟩, fun _ h hcalm => (h hcalm).2⟩
  have hcalming : re.EntersKeeping fun e => ¬e.Calm := hre.operates.enters Engine.calm_stable.closed
  have hstep {α : Type} {x : Act α} {f : α → Act Unit} {e₁ : Engine} (hx : x.Keeps I)
      (h₁ : I e₁) (h : (x >>= f).Gives e₁ (.ok ()) e') :
      ∃ a e₂, I e₂ ∧ (f a).Gives e₂ (.ok ()) e' := by
    obtain ⟨a, e₂, hfirst, hrest⟩ | ⟨err, -, h⟩ := gives_bind.1 h
    · exact ⟨a, e₂, hx hfirst h₁, hrest⟩
    · cases h
  have hsources (sources : List (String × DynamicExpr)) :
      Act.Keeps I (change (·.modifyContext id fun data => { data with sources := sources })) := by
    refine keeps_change fun e he => ?_
    exact hI.modifyContext (fun _ => rfl) he
  unfold setupComponent at h
  obtain ⟨owner, e₁, h₁, h⟩ := hstep (keeps_read _) hstart h
  obtain ⟨sources, e₂, h₂, h⟩ :=
    hstep (prepareContext_keeps hI.tracking hen trivial owner c actions) h₁ h
  obtain ⟨-, e₃, h₃, h⟩ := hstep (hsources sources) h₂ h
  obtain ⟨-, e₄, h₄, h⟩ := hstep (runHooks_keeps hI.tracking hen _ id _) h₃ h
  obtain ⟨-, e₅, h₅, h⟩ := hstep (processNode_keeps hI.tracking hen _ id) h₄ h
  obtain ⟨⟨⟩, e₆, hroutine, hhooks⟩ | ⟨err, -, h⟩ := gives_bind.1 h
  · refine ⟨e₅, e₆, hend e₅ h₅ (Classical.byContradiction fun hwild => ?_), hroutine⟩
    exact runHooks_keeps Engine.calm_stable.evaluation.tracking hcalming _ id _ hhooks
      (runRoutine_keeps Engine.calm_stable.closed hre.operates id c.ns hroutine hwild) hcalm
  · cases h

/-- An instance that was set up has passed each code block at the top of its template. -/
theorem passes_of_setupComponent {depth : Nat} {id : NodeId} {data : ContextData}
    {actions : List AttrAction} (hid : e.context? id = some data)
    (h : (setupComponent (.within depth) id actions c).Gives e (.ok ()) e') (hcalm : e'.Calm)
    (hvalid : e.nodes.Valid) :
    ∃ inner e₁, e₁.view = e.view ∧ ∀ before body line later,
      data.routine.body.steps = before ++ .code body line :: later →
        Passes (.within inner) ⟨id, id, none, c.ns⟩ before body line e₁ := by
  have hre := (Reentry.within_grounded depth).toBuilds
  obtain ⟨e₁, e₂, hview, hroutine⟩ := runRoutine_of_setupComponent hre h hcalm hvalid
  -- the template is the one that the instance was made with
  obtain ⟨n, hn, hdata⟩ := Engine.view_of_context? hid
  rw [← hview] at hn
  have hctx : n.isContext = true := by
    unfold RenderNode.isContext
    rw [hdata]
    rfl
  obtain ⟨data', hid', hdata'⟩ := Engine.context?_of_view hn hctx
  have hsame : data'.skeleton = data.skeleton := Option.some.inj (hdata'.symm.trans hdata)
  have hbody : data'.routine = data.routine := congrArg (·.routine) hsame
  unfold runRoutine at hroutine
  rw [gives_read_bind, hid'] at hroutine
  obtain ⟨⟨⟩, e₃, hbuild, -⟩ | ⟨err, -, h⟩ := gives_bind.1 hroutine
  · cases depth with
    | zero => cases hbuild
    | succ depth =>
      refine ⟨depth, e₁, hview, fun before body line later hsteps => ?_⟩
      exact passes_of_buildBody hbuild (hbody ▸ hsteps)
  · cases h

/-- What comes of setting an instance up, and of taking it away where that fails. -/
theorem setupOrRemove_cases (hre : re.Builds) {id r₀ : NodeId} {data : ContextData}
    {actions : List AttrAction} {e₀ : Engine} {r : Except EngineError Unit}
    (h : Act.Gives (tryCatch (setupComponent re id actions c) fun err => do
      match err with
      | .initFailed _ => change fun e => (e.diagnose c.ctx none err.message none).removeNode id
      | _ =>
        change (·.removeNode id)
        throw err) e r e') (hcalm : e'.Calm) (hvalid : e.nodes.Valid)
    (ht : e₀.shape.Tree r₀) (hc : e₀.view.Admits c)
    (halloc : View.Allocated c (.context data) id e₀.view e.view) (ht₁ : e.shape.Tree r₀) :
    (setupComponent re id actions c).Gives e (.ok ()) e' ∧ r = .ok () ∨
      e'.shape = e₀.shape ∧ ∀ context, r ≠ .error (.initFailed context) := by
  obtain ⟨⟨⟩, hdone, hr⟩ | ⟨err, e₁, hsetup, hhandler⟩ := gives_tryCatch.1 h
  · exact .inl ⟨hdone, hr⟩
  refine .inr ?_
  -- whatever the failure was, the instance is taken away from an engine with its remains
  have hgone (f : Engine → Engine) (hf : ∀ I, Engine.EvaluationStable I → ∀ e, I e → I (f e))
      (hshape : ∀ e, (f e).shape = e.shape) (he' : e' = (f e₁).removeNode id) :
      e'.shape = e₀.shape := by
    have hremove := removeNode_does id f hf hshape
    have hgives : (change fun e => (f e).removeNode id).Gives e₁ (.ok ()) e' :=
      gives_change.2 ⟨rfl, he'⟩
    have hcalm₁ : e₁.Calm :=
      Classical.byContradiction fun hwild => hremove.calm hgives hwild hcalm
    have hdoes := setupComponent_does hre id actions c
    exact (removed_shape ht hc halloc ht₁
      (hdoes.spec hsetup hcalm₁ hvalid ⟨_, halloc.node, rfl⟩)
      (hremove.spec hgives hcalm (hdoes.valid hsetup hvalid))).1
  have hother (h : Act.Gives (do change (·.removeNode id); throw err) e₁ r e') :
      e'.shape = e₀.shape ∧ r = .error err := by
    rw [gives_change_bind] at h
    obtain ⟨hr, he'⟩ := gives_throw.1 h
    exact ⟨hgone (fun e => e) (fun _ _ _ he => he) (fun _ => rfl) he', hr⟩
  cases err with
  | initFailed context =>
    obtain ⟨rfl, he'⟩ := gives_change.1 hhandler
    refine ⟨hgone (fun e => e.diagnose c.ctx none (EngineError.initFailed context).message none)
      (fun I h e he => h.tracking.diagnose _ _ _ _ he) (fun _ => rfl) he', nofun⟩
  | _ =>
    obtain ⟨hshape, rfl⟩ := hother hhandler
    exact ⟨hshape, nofun⟩

/-- An instance that was set up to the end is new in the tree, and has passed each code block at the
top of its template. -/
theorem passes_of_installed {depth : Nat} {id root : NodeId} {data : ContextData}
    {actions : List AttrAction} {e₀ : Engine}
    (hdone : (setupComponent (.within depth) id actions c).Gives e (.ok ()) e') (hcalm : e'.Calm)
    (hvalid : e.nodes.Valid) (ht : e.shape.Tree root)
    (halloc : View.Allocated c (.context data) id e₀.view e.view) :
    e₀.contains id = false ∧ e'.shape.Parent c.parent id ∧
      ∃ inner e₁, e₁.shape.Parent c.parent id ∧ ∀ before body line later,
        data.routine.body.steps = before ++ .code body line :: later →
          Passes (.within inner) ⟨id, id, none, c.ns⟩ before body line e₁ := by
  have hre := (Reentry.within_grounded depth).toBuilds
  have hbuilt := ((setupComponent_does hre id actions c).spec hdone hcalm hvalid
    ⟨_, halloc.node, rfl⟩ root ht).1
  obtain ⟨n', hn', -, -, hparent⟩ := hbuilt.node halloc.node
  obtain ⟨data', hdata', hskeleton⟩ := Engine.context?_of_view halloc.node rfl
  have hroutine : data'.routine = data.routine := congrArg (·.routine)
    (Option.some.inj hskeleton).symm
  obtain ⟨inner, e₁, hview, hpasses⟩ := passes_of_setupComponent hdata' hdone hcalm hvalid
  rw [hroutine] at hpasses
  refine ⟨?_, ⟨n', hn', hparent⟩, inner, e₁, ?_, hpasses⟩
  · by_contra hlive
    obtain ⟨n, hn⟩ := Engine.contains_iff_shape.1 (Bool.of_not_eq_false hlive)
    exact absurd (hn.symm.trans halloc.fresh) (Option.some_ne_none n)
  · have hshape : e₁.shape = e.shape := congrArg View.shape hview
    rw [hshape]
    exact ⟨_, halloc.node, rfl⟩

/-- Building a component instance never ends in the refusal of an initial hook, and takes nothing
away that was there before. Unless the instance was set up to the end the tree is left as it was. If
it was, then it is in the tree and has passed each code block at the top of its template. -/
theorem buildComponent_settles {depth : Nat} {name : String} {actions : List AttrAction}
    {slots : SlotContent} {root : NodeId} {r : Except EngineError Unit}
    (h : (buildComponent (.within depth) name actions slots c).Gives e r e') (hcalm : e'.Calm)
    (hvalid : e.nodes.Valid) (ht : e.shape.Tree root) (hc : e.view.Admits c) :
    (∀ context, r ≠ .error (.initFailed context)) ∧
    (∀ x, e.contains x = true → e'.contains x = true) ∧
    (e'.shape = e.shape ∨ r = .ok () ∧ ∃ id routine, e.contains id = false ∧
      e'.shape.Parent c.parent id ∧ (e.library.resolve name).1 = some routine ∧
      ∃ inner e₁, e₁.shape.Parent c.parent id ∧ ∀ before body line later,
        routine.body.steps = before ++ .code body line :: later →
          Passes (.within inner) ⟨id, id, none, c.ns⟩ before body line e₁) := by
  have hre := (Reentry.within_grounded depth).toBuilds
  have hgrown := ((buildComponent_does hre name actions slots c).spec h hcalm hvalid hc root ht).1
  have hkept (x : NodeId) (hx : e.contains x = true) : e'.contains x = true := by
    obtain ⟨n, hn⟩ := Engine.contains_iff_shape.1 hx
    obtain ⟨n', hn', -⟩ := hgrown.node hn
    exact Engine.contains_iff_shape.2 ⟨n', hn'⟩
  suffices hrest : (∀ context, r ≠ .error (.initFailed context)) ∧ _ from
    ⟨hrest.1, hkept, hrest.2⟩
  unfold buildComponent at h
  split at h
  · obtain ⟨rfl, rfl⟩ := gives_pure.1 h
    exact ⟨nofun, .inl rfl⟩
  · unfold resolveComponent at h
    rw [gives_step_bind] at h
    -- finding the component leaves the nodes
    generalize hfound : e.library.resolve name = found at h
    obtain ⟨found, library⟩ := found
    dsimp only at h ⊢
    cases found with
    | none =>
      rw [gives_read_bind] at h
      split at h
      · obtain ⟨rfl, rfl⟩ := gives_change.1 h
        exact ⟨nofun, .inl rfl⟩
      · obtain ⟨rfl, rfl⟩ := gives_pure.1 h
        exact ⟨nofun, .inl rfl⟩
    | some routine =>
      rw [gives_read_bind] at h
      let data := newContext { e with library := library } routine actions slots c
      have hdoes : (alloc (.context data) c {}).Does _ := alloc_does (by exact rfl) c {}
      obtain ⟨id, e₁, hnew, hsetup⟩ | ⟨err, hnew, hr⟩ := gives_bind.1 h
      · have hcalm₁ : e₁.Calm := Classical.byContradiction fun hwild =>
          (setupOrRemove_does hre id actions c).calm hsetup hwild hcalm
        have hvalid₁ := hdoes.valid hnew hvalid
        obtain ⟨err, herr, -⟩ | ⟨id', hid, halloc⟩ := hdoes.spec hnew hcalm₁ hvalid hc.parent
        · cases herr
        obtain rfl := Except.ok.inj hid
        have ht₁ := halloc.tree ht hc (fits_newContext (e := { e with library := library }) ht hc
          routine actions slots)
        rcases setupOrRemove_cases hre hsetup hcalm hvalid₁ ht hc halloc ht₁ with
          ⟨hdone, rfl⟩ | ⟨hshape, hr⟩
        · obtain ⟨hfresh, hparent, hpasses⟩ :=
            passes_of_installed hdone hcalm hvalid₁ ht₁ halloc
          exact ⟨nofun, .inr ⟨rfl, id, routine, hfresh, hparent, rfl, hpasses⟩⟩
        · exact ⟨hr, .inl hshape⟩
      · obtain ⟨err', -, hview⟩ | ⟨id, herr, -⟩ := hdoes.spec hnew hcalm hvalid hc.parent
        · refine ⟨fun context hrefused => ?_, .inl (congrArg View.shape hview)⟩
          rw [hr] at hrefused
          obtain rfl := Except.error.inj hrefused
          exact alloc_not_refused hnew
        · cases herr

/-- An instance whose initial hook refuses leaves no trace. -/
theorem buildComponent_settles_refused :
    let host : Host :=
      { library :=
        { registry :=
          { sources := .ofList [("Main", "<u></u>"),
              ("Child", "<python>fn init() \x7b return false \x7d</python><i></i>")] } } }
    let e := host.start.after 9 [.mount "Main" .empty]
    let c : Cursor := ⟨⟨0, 0⟩, ⟨0, 0⟩, none, .html⟩
    ∃ e', (buildComponent (.within 9) "Child" [] {} c).Gives e (.ok ()) e' ∧
      e'.diagnostics.map (·.message) = ["init of 'Child' failed"] ∧ e'.shape = e.shape := by
  intro host e c
  have hsome : ((buildComponent (.within 9) "Child" [] {} c).runOn e).isSome = true := by
    decide +kernel
  have hgood : ((buildComponent (.within 9) "Child" [] {} c).runOn e).all (fun p =>
      p.1.isOk && (p.2.diagnostics.map (·.message) == ["init of 'Child' failed"] &&
        (p.2.childrenOf ⟨0, 0⟩ == [⟨1, 0⟩] && (p.2.entries == 0 &&
          p.2.nodes.slots.size < UInt32.size)))) = true := by
    decide +kernel
  have hold : e.contains ⟨1, 0⟩ = true := by decide +kernel
  have hroot : (e.context? ⟨0, 0⟩).isSome = true := by decide +kernel
  have hentries : e.entries = 0 := by decide +kernel
  have hroom : e.nodes.slots.size < UInt32.size := by decide +kernel
  obtain ⟨rs, hrun, hok⟩ := Engine.runs_after_ok 9 [.mount "Main" .empty] host.start
    (by decide +kernel)
  change host.start.Runs _ rs e at hrun
  obtain ⟨⟨r, e'⟩, hgives⟩ := Option.isSome_iff_exists.1 hsome
  rw [hgives, Option.all_some] at hgood
  clear_value e
  simp only [Bool.and_eq_true, beq_iff_eq, decide_eq_true_iff] at hgood
  obtain ⟨hr, hproblem, hchildren, hentries', hroom'⟩ := hgood
  obtain ⟨root, hrooted⟩ := hrun.rooted (by simp [Operation.builds]) hok ⟨hentries, hroom⟩
    host.rooted_start
  obtain ⟨data, hdata⟩ := Option.isSome_iff_exists.1 hroot
  obtain ⟨n, hn, hctx⟩ := Engine.view_of_context? hdata
  have hc : e.view.Admits c := View.admits_of_context hn (by rw [RenderNode.isContext, hctx]; rfl) _
    _
  obtain ⟨-, -, hsame | ⟨-, id, -, hfresh, hparent, -⟩⟩ :=
    buildComponent_settles hgives ⟨hentries', hroom'⟩ hrooted.valid hrooted.tree hc
  · cases r with
    | ok _ => exact ⟨e', hgives, hproblem, hsame⟩
    | error err => cases hr
  · -- the root has no child that is new
    have hbuilt := (buildComponent_does (Reentry.within_grounded 9).toBuilds _ _ _ c).spec hgives
      ⟨hentries', hroom'⟩ hrooted.valid hc root hrooted.tree
    obtain ⟨np, hnp, hmem⟩ := hbuilt.1.tree.parent_live hparent
    rw [← Engine.childrenOf_view hnp, hchildren, List.mem_singleton] at hmem
    rw [hmem, hold] at hfresh
    cases hfresh

end Render
end ReactiveView
