import ReactiveView.Proofs.Compilation.Evaluation

/-!
# Building and updating trees that differ in how their bodies are run

Build steps with one norm are refined by each other, and so are bodies with one norm, since these
have the same steps up to norms (`Render.buildBody_refines`). With this, updating and rebuilding are
refined, and what is nested at most so deeply is refined by what may be nested more deeply
(`Reentry.within_refines`).
-/

namespace ReactiveView

/-- What loops with one norm have in common. -/
theorem LoopSpec.of_norm_eq {spec spec' : LoopSpec} (h : spec.norm = spec'.norm) :
    spec.var = spec'.var ∧ spec.identity = spec'.identity ∧ spec.body.norm = spec'.body.norm ∧
      spec.empty.map Body.norm = spec'.empty.map Body.norm :=
  ⟨congrArg (·.var) h, congrArg (·.identity) h, congrArg (·.body) h, congrArg (·.empty) h⟩

section

variable {re re' : Reentry} (hre : re.Refines re')

namespace Render

open Act

/-! ## Elements and texts -/

/-- Creating a node. -/
theorem alloc_refines {kind kind' : RenderKind} (h : kind.norm = kind'.norm) (cursor : Cursor)
    (flags : NodeFlags) : (alloc kind cursor flags).Refines Eq (alloc kind' cursor flags) := by
  refine refines_bind refines_poll fun _ => refines_step_of fun e e' he => ?_
  have hadd := e.addNode_norm kind cursor flags
  have hadd' := e'.addNode_norm kind' cursor flags
  rw [he, h, hadd'] at hadd
  rw [Prod.mk.injEq] at hadd
  exact ⟨hadd.1.symm, hadd.2.symm⟩

include hre

/-- Creating an element. -/
theorem beginElement_refines (tag : String) (actions : List AttrAction) (cursor : Cursor) :
    (beginElement re tag actions cursor).Refines Eq (beginElement re' tag actions cursor) := by
  refine refines_bind (alloc_refines rfl cursor _) fun id => ?_
  refine refines_bind (prepareElement_refines hre id cursor actions) fun injected => ?_
  refine refines_bind (refreshElement_refines hre id) fun _ => ?_
  refine refines_bind (runHooks_refines hre _ id _) fun _ => ?_
  refine refines_bind (processNode_refines hre _ id) fun _ => ?_
  exact refines_bind (enterFrame_refines _ injected) fun _ => refines_pure _

/-- Building an element. -/
theorem buildElement_refines (tag : String) (actions : List AttrAction) {content content' : Content}
    (h : content.norm = content'.norm) (cursor : Cursor) :
    (buildElement re tag actions content cursor).Refines Eq
      (buildElement re' tag actions content' cursor) := by
  refine refines_ite (refines_pure _) ?_
  refine refines_bind (beginElement_refines hre tag actions cursor) fun p => ?_
  obtain ⟨id, inner⟩ := p
  have hfinish := finishElement_refines hre id
  cases content with
  | text source =>
    cases content' with
    | text source' =>
      cases h
      exact refines_bind (setElementText_refines hre id source) fun _ => hfinish
    | body body' => cases h
  | body body =>
    cases content' with
    | text source' => cases h
    | body body' =>
      exact refines_bind (hre.build inner (Content.body.inj h)) fun _ => hfinish

/-- Building a text node. -/
theorem buildText_refines (source : TextSource) (cursor : Cursor) :
    (buildText re source cursor).Refines Eq (buildText re' source cursor) := by
  cases source with
  | literal text =>
    refine refines_bind (refines_step fun e => e.localizeText_norm text) fun _ => ?_
    exact refines_discard (alloc_refines rfl cursor _)
  | dynamic e =>
    refine refines_bind (alloc_refines rfl cursor _) fun id => ?_
    exact refines_discard (refreshText_refines hre id)

/-! ## Components -/

/-- Building the template of a context. -/
theorem runRoutine_refines (ctx : NodeId) (ns : Namespace) :
    (runRoutine re ctx ns).Refines Eq (runRoutine re' ctx ns) := by
  refine refines_bind_of (refines_read_of fun e => e.context?_norm ctx) fun found found' h => ?_
  cases found with
  | none =>
    cases found' with
    | none => exact refines_throw _
    | some data' => cases h
  | some data =>
    cases found' with
    | none => cases h
    | some data' =>
      have hroutine : data.routine.norm = data'.routine.norm :=
        congrArg (·.routine) (Option.some.inj h)
      refine refines_bind (hre.build _ (Routine.of_norm_eq hroutine).2) fun _ => ?_
      exact callOwnHook_refines hre _ _ _ _

/-- Setting a new context up. -/
theorem setupComponent_refines (id : NodeId) (actions : List AttrAction) (cursor : Cursor) :
    (setupComponent re id actions cursor).Refines Eq (setupComponent re' id actions cursor) := by
  refine refines_bind (refines_read fun e => e.scopeOwner_norm id) fun owner => ?_
  refine refines_bind (prepareContext_refines hre id owner cursor actions) fun sources => ?_
  refine refines_bind (refines_change fun e => ?_) fun _ => ?_
  · rw [Engine.modifyContext_norm]
    exact fun _ => rfl
  refine refines_bind (runHooks_refines hre _ id _) fun _ => ?_
  refine refines_bind (processNode_refines hre _ id) fun _ => ?_
  refine refines_bind (runRoutine_refines hre id _) fun _ => ?_
  exact runHooks_refines hre _ id _

omit hre in
/-- New instances of components with one norm. -/
theorem newContext_norm {routine routine' : Routine} (hroutine : routine.norm = routine'.norm)
    {slots slots' : SlotContent} (hslots : slots.norm = slots'.norm) (actions : List AttrAction)
    (cursor : Cursor) {e e' : Engine} (he : e.norm = e'.norm) :
    (newContext e routine actions slots cursor).norm =
      (newContext e' routine' actions slots' cursor).norm := by
  have howner : e.scopeOwner cursor.ctx = e'.scopeOwner cursor.ctx := by
    rw [← e.scopeOwner_norm, he, e'.scopeOwner_norm]
  simp only [newContext, ContextData.norm, hroutine, (Routine.of_norm_eq hroutine).1, howner,
    Option.map_some, SlotBinding.norm, hslots]

/-- Building an instance of a component. -/
theorem buildComponent_refines (name : String) (actions : List AttrAction)
    {slots slots' : SlotContent} (h : slots.norm = slots'.norm) (cursor : Cursor) :
    (buildComponent re name actions slots cursor).Refines Eq
      (buildComponent re' name actions slots' cursor) := by
  refine refines_ite (refines_pure _) (resolveComponent_refines name ?_ ?_)
  · refine refines_bind (refines_read fun _ => rfl) fun reported => ?_
    exact refines_ite (refines_change fun e => e.diagnose_norm _ _ _ _) (refines_pure _)
  · intro routine routine' hroutine
    have hnew : Act.Refines (fun data data' => data.norm = data'.norm)
        (Act.read fun e => newContext e routine actions slots cursor)
        (Act.read fun e => newContext e routine' actions slots' cursor) :=
      refines_step_of fun e e' he => ⟨newContext_norm hroutine h actions cursor he, he⟩
    refine refines_bind_of hnew fun data data' hdata => ?_
    have hkind : (RenderKind.context data).norm = (RenderKind.context data').norm :=
      congrArg RenderKind.context hdata
    refine refines_bind (alloc_refines hkind cursor _) fun id => ?_
    refine refines_tryCatch (setupComponent_refines hre id actions cursor) fun err => ?_
    have hremove (err : EngineError) : Act.Refines Eq (do
        Act.change (·.removeNode id)
        throw err : Act Unit) (do
        Act.change (·.removeNode id)
        throw err) :=
      refines_bind (refines_change fun e => e.removeNode_norm id) fun _ => refines_throw _
    cases err with
    | initFailed context =>
      refine refines_change fun e => ?_
      rw [Engine.diagnose_norm, Engine.removeNode_norm]
    | _ => exact hremove _

omit hre in
/-- What is done with a body if there is one. -/
theorem optional_refines {f g : Body → Act Unit} {d d' : Act Unit} (hd : d.Refines Eq d')
    (hf : ∀ body body' : Body, body.norm = body'.norm → (f body).Refines Eq (g body'))
    {body body' : Option Body} : body.map Body.norm = body'.map Body.norm →
    Act.Refines Eq (match body with | some body => f body | none => d)
      (match body' with | some body => g body | none => d') := by
  intro h
  cases body with
  | none =>
    cases body' with
    | none => exact hd
    | some body' => cases h
  | some body =>
    cases body' with
    | none => cases h
    | some body' => exact hf body body' (Option.some.inj h)

/-- Building a body elsewhere, or doing something else if there is none. -/
theorem buildContent_refines (inner : Cursor) {d d' : Act Unit} (hd : d.Refines Eq d')
    {body body' : Option Body} : body.map Body.norm = body'.map Body.norm →
    Act.Refines Eq
      (match body.map fun body => (body, inner) with
        | some (body, inner) => re.build body inner
        | none => d)
      (match body'.map fun body => (body, inner) with
        | some (body, inner) => re'.build body inner
        | none => d') := by
  intro h
  cases body with
  | none =>
    cases body' with
    | none => exact hd
    | some body' => cases h
  | some body =>
    cases body' with
    | none => cases h
    | some body' => exact hre.build inner (Option.some.inj h)

/-- Building the content of a slot. -/
theorem buildSlot_refines (name : Option String) {fallback fallback' : Option Body}
    (h : fallback.map Body.norm = fallback'.map Body.norm) (cursor : Cursor) :
    (buildSlot re name fallback cursor).Refines Eq (buildSlot re' name fallback' cursor) := by
  have hread : Act.Refines
      (fun binding binding' => binding.map SlotBinding.norm = binding'.map SlotBinding.norm)
      (Act.read fun e => (e.context? cursor.ctx).bind (·.slot))
      (Act.read fun e => (e.context? cursor.ctx).bind (·.slot)) := by
    refine refines_read_of fun e => ?_
    rw [Engine.context?_norm]
    cases e.context? cursor.ctx <;> rfl
  have hfallback := optional_refines (refines_pure ()) (fun _ _ => hre.build cursor) h
  refine refines_bind_of hread fun binding binding' hbinding => ?_
  cases binding with
  | none =>
    cases binding' with
    | none => exact hfallback
    | some slot' => cases hbinding
  | some slot =>
    cases binding' with
    | none => cases hbinding
    | some slot' =>
      have hslot : slot.norm = slot'.norm := Option.some.inj hbinding
      have hcaller : slot.caller = slot'.caller := congrArg (·.caller) hslot
      have hframe : slot.frame = slot'.frame := congrArg (·.frame) hslot
      have hcontent : slot.content.norm = slot'.content.norm := congrArg (·.content) hslot
      dsimp only [Option.bind_some]
      rw [hcaller, hframe]
      cases name with
      | none => exact buildContent_refines hre _ hfallback (congrArg (·.default) hcontent)
      | some name =>
        have hnamed : slot.content.named.mapValues Body.norm =
            slot'.content.named.mapValues Body.norm := congrArg (·.named) hcontent
        refine buildContent_refines hre _ hfallback ?_
        rw [← OrderedMap.get?_mapValues, hnamed, OrderedMap.get?_mapValues]

/-! ## Conditions -/

omit hre in
/-- Branches with one norm at an index. -/
theorem branch_norm {branches branches' : List Branch}
    (h : branches.map Branch.norm = branches'.map Branch.norm) (selected : Option Nat) :
    (selected.bind (branches[·]?)).map Branch.norm =
      (selected.bind (branches'[·]?)).map Branch.norm := by
  cases selected with
  | none => rfl
  | some index =>
    have hindex := congrArg (·[index]?) h
    simpa only [List.getElem?_map, Option.bind_some] using hindex

/-- Building a branch of a condition. -/
theorem buildBranch_refines (id : NodeId) (selected : Option Nat) :
    (buildBranch re id selected).Refines Eq (buildBranch re' id selected) := by
  refine refines_node id (refines_pure _) fun n n' h => ?_
  obtain ⟨-, -, hcontext, -, hframe, -⟩ := RenderNode.of_norm_eq h
  dsimp only
  rw [hcontext, hframe]
  refine refines_condition (refines_pure _) (fun data data' hdata => ?_) (congrArg (·.kind) h)
  refine refines_bind (refines_change_of fun e e' he => ?_) fun _ => ?_
  · have hkind : (RenderKind.condition { data with selected := selected }).norm =
        (RenderKind.condition { data' with selected := selected }).norm :=
      congrArg (fun data : ConditionData => RenderKind.condition { data with selected := selected })
        hdata
    rw [← e.setKind_norm, ← e'.setKind_norm, he, hkind]
  · have hbranch := branch_norm (congrArg ConditionData.branches hdata) selected
    cases hfound : selected.bind (data.branches[·]?) with
    | none =>
      rw [hfound] at hbranch
      rw [Option.map_eq_none_iff.1 hbranch.symm]
      exact refines_pure _
    | some branch =>
      rw [hfound] at hbranch
      obtain ⟨branch', hfound', hnorm⟩ := Option.map_eq_some_iff.1 hbranch.symm
      rw [hfound']
      refine refines_bind (refines_read fun e => e.namespaceAt_norm id) fun ns => ?_
      exact hre.build _ (congrArg Branch.body hnorm.symm)

/-- Building a condition. -/
theorem buildChoice_refines {branches branches' : List Branch}
    (h : branches.map Branch.norm = branches'.map Branch.norm) (reactive : Bool)
    (cursor : Cursor) :
    (buildChoice re branches reactive cursor).Refines Eq
      (buildChoice re' branches' reactive cursor) := by
  have hkind : (RenderKind.condition { branches := branches, reactive := reactive }).norm =
      (RenderKind.condition { branches := branches', reactive := reactive }).norm := by
    simp only [RenderKind.norm, ConditionData.norm, h]
  refine refines_bind (alloc_refines hkind cursor _) fun id => ?_
  refine refines_bind (selectBranch_refines hre id) fun selected => ?_
  exact buildBranch_refines hre id selected

/-! ## Loops -/

/-- Building an instance. -/
theorem buildInstance_refines {spec spec' : LoopSpec} (h : spec.norm = spec'.norm)
    (cursor : Cursor) (item : Value) (index : Nat) (identity : Option Value) :
    (buildInstance re spec cursor item index identity).Refines Eq
      (buildInstance re' spec' cursor item index identity) := by
  obtain ⟨hvar, -, hbody, -⟩ := LoopSpec.of_norm_eq h
  unfold buildInstance
  rw [hvar]
  refine refines_bind refines_poll fun _ => ?_
  refine refines_bind (refines_step fun e => rfl) fun frame => ?_
  refine refines_bind (refines_read fun e => ?_) fun before => ?_
  · rw [Engine.childrenOf_norm]
  refine refines_bind (hre.build _ hbody) fun _ => ?_
  refine refines_bind (refines_read fun e => ?_) fun nodes => refines_pure _
  rw [Engine.childrenOf_norm]

/-- Building an instance for each new key. -/
theorem buildKeyed_refines {spec spec' : LoopSpec} (h : spec.norm = spec'.norm) (cursor : Cursor)
    (items : List Value) : ∀ instances,
    (buildKeyed re spec cursor items instances).Refines Eq
      (buildKeyed re' spec' cursor items instances) := by
  induction items with
  | nil => exact fun instances => refines_pure instances
  | cons item items ih =>
    intro instances
    refine refines_bind (loopKey_refines hre h cursor item) fun p => ?_
    obtain ⟨key, identity⟩ := p
    refine refines_ite (ih instances) ?_
    exact refines_bind (buildInstance_refines hre h cursor item _ _) fun built => ih _

/-- Building an instance for each item. -/
theorem buildPlain_refines {spec spec' : LoopSpec} (h : spec.norm = spec'.norm) (cursor : Cursor)
    (items : List Value) : ∀ index,
    (buildPlain re spec cursor index items).Refines Eq
      (buildPlain re' spec' cursor index items) := by
  induction items with
  | nil => exact fun _ => refines_pure _
  | cons item items ih =>
    intro index
    refine refines_bind (refines_discard (buildInstance_refines hre h cursor item index none)) ?_
    exact fun _ => ih (index + 1)

/-- Finishing a loop. -/
theorem finishLoop_refines (id : NodeId) {spec spec' : LoopSpec} (h : spec.norm = spec'.norm)
    (cursor : Cursor) (state : LoopState) :
    (finishLoop re id spec cursor state).Refines Eq
      (finishLoop re' id spec' cursor state) := by
  obtain ⟨-, -, -, hempty⟩ := LoopSpec.of_norm_eq h
  have hsome : spec.empty.isSome = spec'.empty.isSome := by
    simpa only [Option.isSome_map] using congrArg Option.isSome hempty
  have hkept {f : RenderKind → RenderKind} (hf : ∀ k, f k.norm = (f k).norm) :
      Act.Refines Eq (Act.change (·.modifyKind id f)) (Act.change (·.modifyKind id f)) :=
    refines_change fun e => e.modifyKind_norm hf id
  unfold finishLoop
  rw [hsome]
  split
  · refine optional_refines (hkept fun k => ?_) (fun body body' hbody => ?_) hempty
    · cases k <;> rfl
    · refine refines_bind (hre.build cursor hbody) fun _ => hkept fun k => ?_
      cases k <;> rfl
  · refine hkept fun k => ?_
    cases k <;> rfl

/-- Building all instances of a loop. -/
theorem fillLoop_refines (id : NodeId) (items : List Value) :
    (fillLoop re id items).Refines Eq (fillLoop re' id items) := by
  refine refines_loopParts id (refines_pure _) fun spec spec' cursor h => ?_
  dsimp only
  rw [(LoopSpec.of_norm_eq h).2.1]
  refine refines_ite ?_ ?_
  · refine refines_bind (buildKeyed_refines hre h cursor items _) fun instances => ?_
    exact finishLoop_refines hre id h cursor _
  · refine refines_bind (buildPlain_refines hre h cursor items 0) fun _ => ?_
    exact finishLoop_refines hre id h cursor _

/-- Building a loop. -/
theorem buildLoop_refines {spec spec' : LoopSpec} (h : spec.norm = spec'.norm) (cursor : Cursor) :
    (buildLoop re spec cursor).Refines Eq (buildLoop re' spec' cursor) := by
  have hiterable : spec.iterable = spec'.iterable := congrArg (·.iterable) h
  have hkind : (RenderKind.loop { spec := spec }).norm = (RenderKind.loop { spec := spec' }).norm :=
    congrArg (fun spec => RenderKind.loop { spec := spec }) h
  unfold buildLoop
  rw [hiterable]
  refine refines_bind (alloc_refines hkind cursor _) fun id => ?_
  refine refines_bind (loopItems_refines hre id) fun items => ?_
  exact fillLoop_refines hre id items

/-! ## Sets, carriers and signals -/

/-- Building what a set binds its value for. -/
theorem fillSet_refines (id : NodeId) (v : Value) :
    (fillSet re id v).Refines Eq (fillSet re' id v) := by
  refine refines_node id (refines_pure _) fun n n' h => ?_
  obtain ⟨-, -, hcontext, -, hframe, -⟩ := RenderNode.of_norm_eq h
  dsimp only
  rw [hcontext, hframe]
  refine refines_set (refines_pure _) (fun data data' hdata => ?_) (congrArg (·.kind) h)
  have hname : data.name = data'.name := congrArg (·.name) hdata
  refine refines_bind (refines_change_of fun e e' he => ?_) fun _ => ?_
  · have hkind : (RenderKind.set { data with current := v }).norm =
        (RenderKind.set { data' with current := v }).norm :=
      congrArg (fun data : SetData => RenderKind.set { data with current := v }) hdata
    rw [← e.setKind_norm, ← e'.setKind_norm, he, hkind]
  rw [hname]
  refine refines_bind (refines_step fun e => e.addFrame_norm _ _) fun frame => ?_
  refine refines_bind (refines_read fun e => e.namespaceAt_norm id) fun ns => ?_
  exact hre.build _ (congrArg SetData.body hdata)

/-- Building a set. -/
theorem buildSet_refines (name : String) (value : DynamicExpr) {body body' : Body}
    (h : body.norm = body'.norm) (cursor : Cursor) :
    (buildSet re name value body cursor).Refines Eq (buildSet re' name value body' cursor) := by
  have hkind : (RenderKind.set { name := name, value := value, body := body }).norm =
      (RenderKind.set { name := name, value := value, body := body' }).norm := by
    simp only [RenderKind.norm, SetData.norm, h]
  refine refines_bind (alloc_refines hkind cursor _) fun id => ?_
  refine refines_bind (setValue_refines hre id) fun v => ?_
  exact fillSet_refines hre id v

/-- Building a carrier. -/
theorem buildCarrier_refines (spec : CarrierSpec) (cursor : Cursor) :
    (buildCarrier re spec cursor).Refines Eq (buildCarrier re' spec cursor) := by
  refine refines_bind (carrierTexts_refines hre cursor _) fun texts => ?_
  refine refines_bind (refines_read fun e => e.contextName_norm _) fun context => ?_
  have hrest (text : Option String) : Act.Refines Eq (do
      let restyle := spec.kind ≠ .script && !spec.everywhere
      if restyle then
        Act.change (·.modifyContext cursor.ctx fun data => { data with restyle := true })
      discard (alloc (.carrier ⟨spec.kind, carrierAttrs spec context texts, text, restyle⟩) cursor
        { reportable := true })) (do
      let restyle := spec.kind ≠ .script && !spec.everywhere
      if restyle then
        Act.change (·.modifyContext cursor.ctx fun data => { data with restyle := true })
      discard (alloc (.carrier ⟨spec.kind, carrierAttrs spec context texts, text, restyle⟩) cursor
        { reportable := true })) := by
    have halloc (restyle : Bool) := refines_discard (alloc_refines (show RenderKind.norm
      (.carrier ⟨spec.kind, carrierAttrs spec context texts, text, restyle⟩) = _ from rfl) cursor
      { reportable := true })
    dsimp only
    split
    · refine refines_bind (refines_change fun e => ?_) fun _ => halloc _
      rw [Engine.modifyContext_norm]
      exact fun _ => rfl
    · exact halloc _
  split
  · exact refines_bind (refines_pure _) hrest
  · exact refines_bind (refines_pure _) hrest
  · refine refines_bind (evaluateAt_refines hre _ _) fun _ => ?_
    exact refines_bind (refines_pure _) hrest

omit hre in
/-- Building a signal. -/
theorem buildSignal_refines (key action : String) (cursor : Cursor) :
    (buildSignal key action cursor).Refines Eq (buildSignal key action cursor) := by
  refine refines_bind (alloc_refines rfl cursor _) fun id => ?_
  exact refines_discard (refines_step fun e => e.lookupAt_norm _ key)

/-! ## Bodies -/

/-- Running a build step. -/
theorem runStep_refines (cursor : Cursor) {step step' : Step} (h : step.norm = step'.norm) :
    (runStep re cursor step).Refines Eq (runStep re' cursor step') := by
  have hdone {x y : Act Unit} (hxy : x.Refines Eq y) : Act.Refines Eq (do
      x
      return cursor) (do
      y
      return cursor) := refines_bind hxy fun _ => refines_pure cursor
  cases step with
  | element tag actions content =>
    cases step' with
    | element tag' actions' content' =>
      obtain ⟨rfl, rfl, hcontent⟩ := Step.element.inj h
      exact hdone (buildElement_refines hre tag actions hcontent cursor)
    | _ => cases h
  | text source =>
    cases step' with
    | text source' =>
      obtain rfl := Step.text.inj h
      exact hdone (buildText_refines hre source cursor)
    | _ => cases h
  | component name actions slots =>
    cases step' with
    | component name' actions' slots' =>
      obtain ⟨rfl, rfl, hslots⟩ := Step.component.inj h
      refine refines_bind (componentName_refines hre cursor name) fun name => ?_
      exact hdone (buildComponent_refines hre name actions hslots cursor)
    | _ => cases h
  | choice branches reactive =>
    cases step' with
    | choice branches' reactive' =>
      obtain ⟨hbranches, rfl⟩ := Step.choice.inj h
      exact hdone (buildChoice_refines hre hbranches reactive cursor)
    | _ => cases h
  | loop spec =>
    cases step' with
    | loop spec' => exact hdone (buildLoop_refines hre (Step.loop.inj h) cursor)
    | _ => cases h
  | set name value body =>
    cases step' with
    | set name' value' body' =>
      obtain ⟨rfl, rfl, hbody⟩ := Step.set.inj h
      exact hdone (buildSet_refines hre name value hbody cursor)
    | _ => cases h
  | slot name fallback =>
    cases step' with
    | slot name' fallback' =>
      obtain ⟨rfl, hfallback⟩ := Step.slot.inj h
      exact hdone (buildSlot_refines hre name hfallback cursor)
    | _ => cases h
  | code body line =>
    cases step' with
    | code body' line' =>
      obtain ⟨rfl, rfl⟩ := Step.code.inj h
      exact hdone (runCodeBlock_refines hre body line cursor)
    | _ => cases h
  | carrier spec =>
    cases step' with
    | carrier spec' =>
      obtain rfl := Step.carrier.inj h
      exact hdone (buildCarrier_refines hre spec cursor)
    | _ => cases h
  | scope bindings body =>
    cases step' with
    | scope bindings' body' =>
      obtain ⟨rfl, hbody⟩ := Step.scope.inj h
      refine refines_bind (bindingValues_refines hre cursor bindings) fun values => ?_
      refine refines_bind (refines_step fun e => e.addFrame_norm _ values) fun frame => ?_
      exact refines_bind (hre.build _ hbody) fun _ => refines_pure _
    | _ => cases h
  | signal key action =>
    cases step' with
    | signal key' action' =>
      obtain ⟨rfl, rfl⟩ := Step.signal.inj h
      exact hdone (buildSignal_refines key action cursor)
    | _ => cases h
  | fragment body =>
    cases step' with
    | fragment body' => exact hdone (hre.build cursor (Step.fragment.inj h))
    | _ => cases h

/-- Building a body. -/
theorem buildBody_refines {body body' : Body} (cursor : Cursor) (h : body.norm = body'.norm) :
    (buildBody re body cursor).Refines Eq (buildBody re' body' cursor) := by
  refine refines_discard (refines_foldlM (k := Step.norm) ?_ (Body.map_norm_steps h) cursor)
  exact fun cursor step step' hstep => runStep_refines hre cursor hstep

/-! ## Updates -/

/-- Updating everything under a node. -/
theorem updateChildren_refines (id : NodeId) :
    (updateChildren re id).Refines Eq (updateChildren re' id) :=
  refines_bind (refines_read fun e => e.childrenOf_norm id) fun children =>
    refines_forM hre.update children

/-- Updating what is under a node, if that is asked for. -/
theorem descend_refines (id : NodeId) (recursive : Bool) :
    Act.Refines Eq (if recursive then updateChildren re id else pure ())
      (if recursive then updateChildren re' id else pure ()) :=
  refines_ite (updateChildren_refines hre id) (refines_pure _)

/-- Updating a loop without identities. -/
theorem updatePlain_refines (id : NodeId) (items : List Value) (recursive : Bool) :
    (updatePlain re id items recursive).Refines Eq (updatePlain re' id items recursive) := by
  refine refines_node id (refines_pure _) fun n n' h => ?_
  refine refines_loop (refines_pure _) (fun data data' hdata => ?_) (congrArg (·.kind) h)
  have hstate : data.state = data'.state := congrArg (·.state) hdata
  rw [hstate]
  refine refines_ite (descend_refines hre id recursive) ?_
  refine refines_bind (refines_change fun e => e.clearChildren_norm id) fun _ => ?_
  exact fillLoop_refines hre id items

/-- Updating an instance that stays. -/
theorem keepInstance_refines {spec spec' : LoopSpec} (h : spec.norm = spec'.norm)
    (cursor : Cursor) (kept : Instance) (item : Value) (index : Nat) (identity : Value)
    (recursive : Bool) :
    (keepInstance re spec cursor kept item index identity recursive).Refines Eq
      (keepInstance re' spec' cursor kept item index identity recursive) := by
  unfold keepInstance
  rw [(LoopSpec.of_norm_eq h).1]
  refine refines_bind (refines_step fun e => rfl) fun changed => ?_
  exact refines_ite (refines_forM hre.update _) (refines_pure _)

/-- Arranging the instances of the wanted items. -/
theorem arrangeInstances_refines {spec spec' : LoopSpec} (h : spec.norm = spec'.norm)
    (cursor : Cursor) (recursive : Bool) (old : OrderedMap Key Instance)
    (wanted : List (Key × Value × Value)) : ∀ index,
    (arrangeInstances re spec cursor recursive old index wanted).Refines Eq
      (arrangeInstances re' spec' cursor recursive old index wanted) := by
  induction wanted with
  | nil => exact fun _ => refines_pure _
  | cons entry wanted ih =>
    intro index
    obtain ⟨key, identity, item⟩ := entry
    unfold arrangeInstances
    cases old.get? key with
    | some kept =>
      refine refines_bind (keepInstance_refines hre h cursor kept item index identity _) ?_
      exact fun _ => refines_bind (ih (index + 1)) fun _ => refines_pure _
    | none =>
      refine refines_bind (buildInstance_refines hre h cursor item index _) fun _ => ?_
      exact refines_bind (ih (index + 1)) fun _ => refines_pure _

/-- Bringing a loop with identities in line with its items. -/
theorem reconcile_refines (id : NodeId) (items : List Value) (recursive : Bool) :
    (reconcile re id items recursive).Refines Eq (reconcile re' id items recursive) := by
  refine refines_loopParts id (refines_pure _) fun spec spec' cursor h => ?_
  refine refines_bind (refines_step fun e => e.takeInstances_norm id) fun old => ?_
  refine refines_bind (wantedItems_refines hre h cursor items _) fun wanted => ?_
  refine refines_bind (refines_change fun e => e.dropInstances_norm old _) fun _ => ?_
  refine refines_bind (arrangeInstances_refines hre h cursor recursive old _ 0) fun p => ?_
  obtain ⟨arranged, moved⟩ := p
  refine refines_bind (refines_change fun e => e.orderChildren_norm id _) fun _ => ?_
  refine refines_bind (refines_change fun e => ?_) fun _ => ?_
  · exact Engine.foldl_norm (fun e id => e.markRebind_norm id) moved e
  · exact finishLoop_refines hre id h cursor _

/-- Building a context anew. -/
theorem rebuildContext_refines (ctx : NodeId) :
    (rebuildContext re ctx).Refines Eq (rebuildContext re' ctx) := by
  refine refines_node ctx (refines_throw _) fun n n' h => ?_
  have hrest : Act.Refines Eq (do
      let ns ← Act.read (·.namespaceAt ctx)
      Act.change (·.clearChildren ctx)
      Act.change (·.resetContext ctx)
      runRoutine re ctx ns) (do
      let ns ← Act.read (·.namespaceAt ctx)
      Act.change (·.clearChildren ctx)
      Act.change (·.resetContext ctx)
      runRoutine re' ctx ns) := by
    refine refines_bind (refines_read fun e => e.namespaceAt_norm ctx) fun ns => ?_
    refine refines_bind (refines_change fun e => e.clearChildren_norm ctx) fun _ => ?_
    refine refines_bind (refines_change fun e => e.resetContext_norm ctx) fun _ => ?_
    exact runRoutine_refines hre ctx ns
  have hcontext : n.isContext = n'.isContext := by
    rw [← n.isContext_norm, h, n'.isContext_norm]
  dsimp only
  rw [hcontext]
  exact refines_ite (refines_bind (refines_throw _) fun _ => hrest) hrest

/-- Evaluating a node again. -/
theorem updateNode_refines (id : NodeId) (recursive : Bool) :
    (updateNode re id recursive).Refines Eq (updateNode re' id recursive) := by
  have hdescend := descend_refines hre id recursive
  have hpurge := refines_change (f := (·.purge id)) fun e => e.purge_norm id
  have hclear := refines_change (f := (·.clearChildren id)) fun e => e.clearChildren_norm id
  have hreport := refines_change (f := (·.report id)) fun e => e.report_norm id
  refine refines_bind refines_poll fun _ => ?_
  refine refines_node id (refines_pure _) fun n n' h => ?_
  obtain ⟨-, -, hcontext, -, -, hkind⟩ := RenderNode.of_norm_eq h
  dsimp only
  cases hk : n.kind with
  | element data =>
    rw [hk] at hkind
    rw [show n'.kind = .element data from hkind]
    refine refines_bind hpurge fun _ => ?_
    refine refines_bind (refreshElement_refines hre id) fun changed => ?_
    exact refines_ite (refines_bind hreport fun _ => hdescend) hdescend
  | text data =>
    rw [hk] at hkind
    rw [show n'.kind = .text data from hkind]
    refine refines_bind hpurge fun _ => ?_
    refine refines_bind (refreshText_refines hre id) fun changed => ?_
    exact refines_ite hreport (refines_pure _)
  | context data =>
    rw [hk] at hkind
    obtain ⟨data', hk', hdata⟩ := hkind
    rw [hk']
    exact refines_bind (propagateSources_refines hre id hcontext hdata) fun _ => hdescend
  | condition data =>
    rw [hk] at hkind
    obtain ⟨data', hk', hdata⟩ := hkind
    have hselected : data.selected = data'.selected := congrArg (·.selected) hdata
    rw [hk']
    dsimp only
    rw [hselected]
    refine refines_bind hpurge fun _ => ?_
    refine refines_bind (selectBranch_refines hre id) fun selected => ?_
    exact refines_ite (refines_bind hclear fun _ => buildBranch_refines hre id selected) hdescend
  | loop data =>
    rw [hk] at hkind
    obtain ⟨data', hk', hdata⟩ := hkind
    have hidentity : data.spec.identity = data'.spec.identity := congrArg (·.spec.identity) hdata
    have hkeyed : data.isKeyed = data'.isKeyed := by rw [LoopData.isKeyed, hidentity, LoopData.isKeyed]
    rw [hk']
    dsimp only
    rw [hkeyed]
    refine refines_bind hpurge fun _ => ?_
    refine refines_bind (loopItems_refines hre id) fun items => ?_
    exact refines_ite (reconcile_refines hre id items recursive)
      (updatePlain_refines hre id items recursive)
  | set data =>
    rw [hk] at hkind
    obtain ⟨data', hk', hdata⟩ := hkind
    have hcurrent : data.current = data'.current := congrArg (·.current) hdata
    rw [hk']
    dsimp only
    rw [hcurrent]
    refine refines_bind hpurge fun _ => ?_
    refine refines_bind (setValue_refines hre id) fun v => ?_
    exact refines_ite (refines_bind hclear fun _ => fillSet_refines hre id v) hdescend
  | carrier data =>
    rw [hk] at hkind
    rw [show n'.kind = .carrier data from hkind]
    exact refines_pure _
  | signal data =>
    rw [hk] at hkind
    rw [show n'.kind = .signal data from hkind, hcontext]
    exact refines_ite (refines_pure _) (fireSignal_refines hre _ id data)

/-- Updating the nodes that still exist. -/
theorem updateLive_refines (ids : List NodeId) :
    (updateLive re ids).Refines Eq (updateLive re' ids) := by
  refine refines_forM (fun id => ?_) ids
  refine refines_bind (refines_read fun e => e.contains_norm id) fun live => ?_
  exact refines_ite (updateNode_refines hre id false) (refines_pure _)

/-- Following queued writes up. -/
theorem flush_refines (limit rounds : Nat) :
    (flush re limit rounds).Refines Eq (flush re' limit rounds) := by
  induction rounds with
  | zero =>
    refine refines_bind (refines_read fun e => rfl) fun pending => ?_
    cases pending.head? with
    | none => exact refines_pure _
    | some written =>
      refine refines_change fun e => ?_
      exact Engine.diagnose_norm { e with pending := .empty } written.1 none _ none
  | succ rounds ih =>
    refine refines_bind (refines_read fun e => rfl) fun settled => ?_
    refine refines_ite (refines_pure _) ?_
    refine refines_bind (refines_step fun e => ?_) fun ids => ?_
    · rw [Engine.readersOf_norm, Engine.byDepth_norm]
      rfl
    · exact refines_bind (updateLive_refines hre ids) fun _ => ih

end Render
end

/-- What is nested at most so deeply is refined by what may be nested more deeply. -/
theorem Reentry.within_refines {depth depth' : Nat} (h : depth ≤ depth') :
    (Reentry.within depth).Refines (Reentry.within depth') := by
  induction depth generalizing depth' with
  | zero =>
    refine ⟨fun _ _ _ _ _ _ _ hgives => ?_, fun _ _ _ _ _ _ hgives => ?_,
      fun _ _ _ _ _ _ hgives => ?_⟩
    all_goals cases hgives
  | succ depth ih =>
    cases depth' with
    | zero => omega
    | succ depth' =>
      have hre := ih (Nat.le_of_succ_le_succ h)
      exact ⟨fun cursor hbody => Render.buildBody_refines hre cursor hbody,
        fun id => Render.updateNode_refines hre id true,
        fun ctx => Render.rebuildContext_refines hre ctx⟩

end ReactiveView
