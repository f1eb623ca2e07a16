import ReactiveView.Proofs.Compilation.Refinement

/-!
# Evaluation in trees that differ in how their bodies are run

Expressions, hooks and attributes are evaluated alike on engines with one norm: each operation that
evaluates something is refined by itself, with refined ways to enter operations anew. Where such an
operation reads the data of a node, it reads what nodes with one norm have in common.
-/

namespace ReactiveView

/-- What nodes with one norm have in common, besides their kinds. -/
theorem RenderNode.of_norm_eq {n n' : RenderNode} (h : n.norm = n'.norm) :
    n.parent = n'.parent ∧ n.children = n'.children ∧ n.context = n'.context ∧
      n.flags = n'.flags ∧ n.frame = n'.frame ∧ n.kind.SameNorm n'.kind := by
  refine ⟨congrArg (·.parent) h, congrArg (·.children) h, congrArg (·.context) h,
    congrArg (·.flags) h, congrArg (·.frame) h, RenderKind.sameNorm (congrArg (·.kind) h)⟩

namespace Act

variable {α : Type} {V : α → α → Prop}

/-- Reading a node. It is there on both sides or on none, and then with one norm. -/
theorem refines_node (id : NodeId) {f g : Option RenderNode → Act α}
    (hnone : (f none).Refines V (g none))
    (hsome : ∀ n n' : RenderNode, n.norm = n'.norm → (f (some n)).Refines V (g (some n'))) :
    Act.Refines V (read (·.node? id) >>= f) (read (·.node? id) >>= g) := by
  refine refines_bind_of (refines_read_of fun e => e.node?_norm id) fun found found' h => ?_
  cases found with
  | none =>
    cases found' with
    | none => exact hnone
    | some n' => cases h
  | some n =>
    cases found' with
    | none => cases h
    | some n' => exact hsome n n' (Option.some.inj h)

/-- Reading what a loop repeats. -/
theorem refines_loopParts (id : NodeId) {f g : Option (LoopSpec × Cursor) → Act α}
    (hnone : (f none).Refines V (g none))
    (hsome : ∀ (spec spec' : LoopSpec) (cursor : Cursor), spec.norm = spec'.norm →
      (f (some (spec, cursor))).Refines V (g (some (spec', cursor)))) :
    Act.Refines V (read (·.loopParts? id) >>= f) (read (·.loopParts? id) >>= g) := by
  refine refines_bind_of (refines_read_of fun e => e.loopParts?_norm id) fun found found' h => ?_
  cases found with
  | none =>
    cases found' with
    | none => exact hnone
    | some p' => cases h
  | some p =>
    cases found' with
    | none => cases h
    | some p' =>
      obtain ⟨spec, cursor⟩ := p
      obtain ⟨spec', cursor'⟩ := p'
      simp only [Option.map_some, Option.some.injEq, Prod.mk.injEq] at h
      obtain ⟨hspec, rfl⟩ := h
      exact hsome spec spec' cursor hspec

variable {k k' : RenderKind} {d d' : Act α} (hd : d.Refines V d')
include hd

/-- What is done to elements only. -/
theorem refines_element {f g : ElementData → Act α} (hf : ∀ data, (f data).Refines V (g data)) :
    k.norm = k'.norm → Act.Refines V (match k with | .element data => f data | _ => d)
      (match k' with | .element data => g data | _ => d') := by
  intro h
  have hkind := RenderKind.sameNorm h
  cases k with
  | element data =>
    obtain rfl := hkind
    exact hf data
  | text data | carrier data | signal data =>
    obtain rfl := hkind
    exact hd
  | context data | condition data | loop data | set data =>
    obtain ⟨data', rfl, -⟩ := hkind
    exact hd

/-- What is done to conditions only. -/
theorem refines_condition {f g : ConditionData → Act α}
    (hf : ∀ data data' : ConditionData, data.norm = data'.norm → (f data).Refines V (g data')) :
    k.norm = k'.norm → Act.Refines V (match k with | .condition data => f data | _ => d)
      (match k' with | .condition data => g data | _ => d') := by
  intro h
  have hkind := RenderKind.sameNorm h
  cases k with
  | element data | text data | carrier data | signal data =>
    obtain rfl := hkind
    exact hd
  | condition data =>
    obtain ⟨data', rfl, hdata⟩ := hkind
    exact hf data data' hdata
  | context data | loop data | set data =>
    obtain ⟨data', rfl, -⟩ := hkind
    exact hd

/-- What is done to loops only. -/
theorem refines_loop {f g : LoopData → Act α}
    (hf : ∀ data data' : LoopData, data.norm = data'.norm → (f data).Refines V (g data')) :
    k.norm = k'.norm → Act.Refines V (match k with | .loop data => f data | _ => d)
      (match k' with | .loop data => g data | _ => d') := by
  intro h
  have hkind := RenderKind.sameNorm h
  cases k with
  | element data | text data | carrier data | signal data =>
    obtain rfl := hkind
    exact hd
  | loop data =>
    obtain ⟨data', rfl, hdata⟩ := hkind
    exact hf data data' hdata
  | context data | condition data | set data =>
    obtain ⟨data', rfl, -⟩ := hkind
    exact hd

/-- What is done to sets only. -/
theorem refines_set {f g : SetData → Act α}
    (hf : ∀ data data' : SetData, data.norm = data'.norm → (f data).Refines V (g data')) :
    k.norm = k'.norm → Act.Refines V (match k with | .set data => f data | _ => d)
      (match k' with | .set data => g data | _ => d') := by
  intro h
  have hkind := RenderKind.sameNorm h
  cases k with
  | element data | text data | carrier data | signal data =>
    obtain rfl := hkind
    exact hd
  | set data =>
    obtain ⟨data', rfl, hdata⟩ := hkind
    exact hf data data' hdata
  | context data | condition data | loop data =>
    obtain ⟨data', rfl, -⟩ := hkind
    exact hd

end Act

section

variable {re re' : Reentry} (hre : re.Refines re')
include hre

namespace Render

open Act

/-! ## Expressions and hooks -/

omit hre in
/-- Recording the failure of an evaluation. -/
theorem recover_refines (outcome : Except EvalError Value) (ctx : NodeId) (node : Option NodeId) :
    (recover outcome ctx node).Refines Eq (recover outcome ctx node) := by
  cases outcome with
  | ok v => exact refines_pure v
  | error err =>
    have hrest : Act.Refines Eq (do
        Act.change (·.diagnose ctx node err.cause.message err.line)
        return Value.null) (do
        Act.change (·.diagnose ctx node err.cause.message err.line)
        return Value.null) :=
      refines_bind (refines_change fun e => e.diagnose_norm ctx node _ _) fun _ => refines_pure _
    unfold recover
    dsimp only
    split
    · exact refines_bind (refines_throw _) fun _ => hrest
    · exact hrest

/-- Evaluating an expression. -/
theorem evaluateAt_refines (site : Site) (e : DynamicExpr) :
    (evaluateAt re site e).Refines Eq (evaluateAt re' site e) := by
  refine refines_bind (refines_lift ?_) fun outcome => recover_refines _ _ _
  exact Interpreter.eval_related (site.env_refines hre) e.expr

/-- Evaluating the operand of an attribute. -/
theorem operandAt_refines (site : Site) (v : AttrValue) :
    (operandAt re site v).Refines Eq (operandAt re' site v) := by
  cases v with
  | empty => exact refines_pure _
  | literal s => exact refines_pure _
  | dynamic e => exact evaluateAt_refines hre site e

/-- Calling a function. -/
theorem invoke_refines (ctx : NodeId) (this : Option NodeId) (f : Value) (args : List Value) :
    (invoke re ctx this f args).Refines Eq (invoke re' ctx this f args) := by
  refine refines_bind (refines_lift ?_) fun outcome => ?_
  · exact Interpreter.callValue_related (Site.env_refines hre _) f args
  · cases outcome with
    | ok v => exact refines_pure v
    | error err => exact refines_ite (refines_throw _) (refines_throw _)

/-- Calling a function and recording its failure. -/
theorem invokeSafely_refines (ctx : NodeId) (this : Option NodeId) (f : Value)
    (args : List Value) :
    (invokeSafely re ctx this f args).Refines Eq (invokeSafely re' ctx this f args) := by
  refine refines_tryCatch (invoke_refines hre ctx this f args) fun err => ?_
  cases err with
  | eval err =>
    exact refines_bind (refines_change fun e => e.diagnose_norm ctx this _ _) fun _ =>
      refines_pure _
  | _ => exact refines_throw _

/-- Calling the function of a name. -/
theorem callHook_refines (ctx : NodeId) (this : Option NodeId) (name : String)
    (args : List Value) :
    (callHook re ctx this name args).Refines Eq (callHook re' ctx this name args) := by
  refine refines_bind (refines_read fun e => by rw [Engine.getVar_norm]) fun found => ?_
  cases found with
  | some f => exact invokeSafely_refines hre ctx this f args
  | none =>
    exact refines_bind (refines_read fun e => e.contextName_norm ctx) fun _ => refines_throw _

/-- Calling the function of a name, which may be missing. -/
theorem callHookSafely_refines (ctx : NodeId) (this : Option NodeId) (name : String)
    (args : List Value) :
    (callHookSafely re ctx this name args).Refines Eq (callHookSafely re' ctx this name args) := by
  refine refines_tryCatch (refines_discard (callHook_refines hre ctx this name args)) fun err => ?_
  cases err with
  | hookNotFound context hook => exact refines_change fun e => e.diagnose_norm ctx this _ _
  | _ => exact refines_throw _

/-- Calling a function that a context defines itself. -/
theorem callOwnHook_refines (ctx : NodeId) (this : Option NodeId) (name : String)
    (args : List Value) :
    (callOwnHook re ctx this name args).Refines Eq (callOwnHook re' ctx this name args) := by
  refine refines_bind (refines_read fun e => e.ownFunction_norm ctx name) fun found => ?_
  cases found with
  | some f => exact refines_discard (invokeSafely_refines hre ctx this f args)
  | none => exact refines_pure _

/-- Calling hooks in turn. -/
theorem runHooks_refines (ctx id : NodeId) (hooks : List String) :
    (runHooks re ctx id hooks).Refines Eq (runHooks re' ctx id hooks) :=
  refines_forM (fun hook => callHookSafely_refines hre ctx (some id) hook _) hooks

/-- Telling a context of a new node. -/
theorem processNode_refines (ctx id : NodeId) :
    (processNode re ctx id).Refines Eq (processNode re' ctx id) :=
  callOwnHook_refines hre ctx (some id) _ _

/-- Evaluating bindings. -/
theorem bindingValues_refines (cursor : Cursor) (bindings : List (String × AttrValue)) :
    (bindingValues re cursor bindings).Refines Eq (bindingValues re' cursor bindings) :=
  refines_mapM (fun binding =>
    refines_bind (operandAt_refines hre cursor.site binding.2) fun _ => refines_pure _) bindings

/-! ## Elements and texts -/

/-- Evaluating the operand of an attribute of an element. -/
theorem operandFor_refines (s : ElementSite) (v : AttrValue) :
    (operandFor re s v).Refines Eq (operandFor re' s v) := by
  cases v with
  | empty => exact refines_pure _
  | literal text => exact refines_pure _
  | dynamic e => exact evaluateAt_refines hre _ e

/-- Evaluating an attribute that is a truth value. -/
theorem flagFor_refines (s : ElementSite) (v : AttrValue) :
    (flagFor re s v).Refines Eq (flagFor re' s v) := by
  cases v with
  | empty => exact refines_pure _
  | literal text => exact refines_pure _
  | dynamic e => exact evaluateAt_refines hre _ e

/-- Evaluating an attribute that is a text. -/
theorem textFor_refines (s : ElementSite) (v : AttrValue) :
    (textFor? re s v).Refines Eq (textFor? re' s v) := by
  cases v with
  | empty => exact refines_pure _
  | literal text => exact refines_pure _
  | dynamic e => exact refines_bind (operandFor_refines hre s _) fun _ => refines_pure _

omit hre in
/-- Reading a variable. -/
theorem variableFor_refines (s : ElementSite) (name : String) (tracked : Bool) :
    (variableFor s name tracked).Refines Eq (variableFor s name tracked) :=
  refines_step fun e => e.lookupAt_norm _ name

omit hre in
/-- Reading a bound variable. -/
theorem boundValue_refines (s : ElementSite) (name : String) :
    (boundValue s name).Refines Eq (boundValue s name) := by
  refine refines_bind (variableFor_refines s name true) fun found => ?_
  cases found with
  | some v => exact refines_pure v
  | none =>
    refine refines_bind (refines_change fun e => ?_) fun _ => refines_pure _
    rw [Engine.scopeOwner_norm, Engine.initVar_norm]

/-- Applying an attribute. -/
theorem applyAction_refines (s : ElementSite) (state : ElementState) (action : AttrAction) :
    (applyAction re s state action).Refines Eq (applyAction re' s state action) := by
  cases action with
  | plain name v => exact refines_bind (textFor_refines hre s v) fun _ => refines_pure _
  | classSwitch name v =>
    cases v with
    | empty => exact refines_bind (variableFor_refines s _ _) fun _ => refines_pure _
    | literal key => exact refines_bind (variableFor_refines s _ _) fun _ => refines_pure _
    | dynamic e =>
      exact refines_bind (refines_map some (operandFor_refines hre s _)) fun _ => refines_pure _
  | styleEntry property v =>
    exact refines_bind (operandFor_refines hre s v) fun _ => refines_pure _
  | bindValue name => exact refines_bind (boundValue_refines s name) fun _ => refines_pure _
  | dynamicSet name v => exact refines_bind (flagFor_refines hre s v) fun _ => refines_pure _
  | data name v => exact refines_bind (operandFor_refines hre s v) fun _ => refines_pure _
  | asset attr v =>
    refine refines_bind (textFor_refines hre s v) fun path => ?_
    cases path with
    | none => exact refines_pure _
    | some path =>
      refine refines_bind (refines_read fun e => ?_) fun _ => refines_pure _
      rw [Engine.contextName_norm, Engine.assets_norm]
  | style v => exact refines_bind (operandFor_refines hre s v) fun _ => refines_pure _
  | classes v => exact refines_bind (textFor_refines hre s v) fun _ => refines_pure _
  | type v => exact refines_bind (textFor_refines hre s v) fun _ => refines_pure _
  | value v => exact refines_bind (operandFor_refines hre s v) fun _ => refines_pure _
  | localize v => exact refines_bind (flagFor_refines hre s v) fun _ => refines_pure _
  | _ => exact refines_pure _

/-- Evaluating the text of an element. -/
theorem applyText_refines (s : ElementSite) (state : ElementState) (text : Option DynamicExpr) :
    (applyText re s state text).Refines Eq (applyText re' s state text) := by
  cases text with
  | none => exact refines_pure _
  | some e =>
    refine refines_bind (evaluateAt_refines hre _ e) fun v => ?_
    exact refines_bind (refines_step fun e => e.localizeText_norm _) fun _ => refines_pure _

/-- Computing what an element shows. -/
theorem refreshElement_refines (id : NodeId) :
    (refreshElement re id).Refines Eq (refreshElement re' id) := by
  refine refines_node id (refines_pure _) fun n n' h => ?_
  obtain ⟨-, -, hcontext, hflags, hframe, hkind⟩ := RenderNode.of_norm_eq h
  dsimp only
  rw [hcontext, hflags, hframe]
  refine refines_element (refines_pure _) (fun data => ?_) (congrArg (·.kind) h)
  refine refines_bind (refines_foldlM (k := fun action => action) ?_ rfl _) fun state => ?_
  · rintro state action _ rfl
    exact applyAction_refines hre _ state action
  refine refines_bind (applyText_refines hre _ state _) fun state => ?_
  exact refines_step fun e => e.showState_norm id _

/-- Computing the text of a text node. -/
theorem refreshText_refines (id : NodeId) :
    (refreshText re id).Refines Eq (refreshText re' id) := by
  refine refines_node id (refines_pure _) fun n n' h => ?_
  obtain ⟨-, -, hcontext, -, hframe, hkind⟩ := RenderNode.of_norm_eq h
  dsimp only
  rw [hcontext, hframe]
  split
  · rename_i text e hn
    rw [hn] at hkind
    rw [show n'.kind = .text ⟨text, some e⟩ from hkind]
    refine refines_bind (evaluateAt_refines hre _ e) fun v => ?_
    refine refines_bind (refines_step fun e => e.localizeText_norm _) fun text => ?_
    refine refines_step fun e => ?_
    simp only [Engine.node?_norm]
    cases e.node? id with
    | none => rfl
    | some n =>
      simp only [Option.map_some, RenderNode.kind_norm]
      cases n.kind with
      | text data => exact Prod.ext rfl (e.setKind_norm (.text { data with text := text }) id)
      | _ => rfl
  · rename_i hother
    split
    · rename_i text e hn'
      have hkind' := RenderKind.sameNorm (congrArg (·.kind) h.symm)
      rw [hn'] at hkind'
      exact absurd hkind' (hother text e)
    · exact refines_pure _

/-- Naming an element and evaluating its scope attributes. -/
theorem prepareElement_refines (id : NodeId) (cursor : Cursor) (actions : List AttrAction) :
    (prepareElement re id cursor actions).Refines Eq (prepareElement re' id cursor actions) := by
  induction actions with
  | nil => exact refines_pure _
  | cons action actions ih =>
    cases action with
    | ref name =>
      exact refines_bind (refines_change fun e => e.bindRef_norm _ name id) fun _ => ih
    | scope name v =>
      refine refines_bind (operandAt_refines hre _ v) fun _ => ?_
      exact refines_bind ih fun _ => refines_pure _
    | _ => exact ih

omit hre in
/-- Entering a frame. -/
theorem enterFrame_refines (cursor : Cursor) (bindings : List (String × Value)) :
    (enterFrame cursor bindings).Refines Eq (enterFrame cursor bindings) :=
  refines_ite (refines_pure _)
    (refines_bind (refines_step fun e => e.addFrame_norm _ bindings) fun _ => refines_pure _)

/-- Giving an element a text of its own. -/
theorem setElementText_refines (id : NodeId) (source : TextSource) :
    (setElementText re id source).Refines Eq (setElementText re' id source) := by
  cases source with
  | literal text =>
    refine refines_bind (refines_step fun e => e.localizeText_norm text) fun text => ?_
    exact refines_change fun e => e.modifyElement_norm id _
  | dynamic e =>
    refine refines_bind (refines_change fun e => e.modifyElement_norm id _) fun _ => ?_
    exact refines_discard (refreshElement_refines hre id)

/-- Calling the final hooks of an element. -/
theorem finishElement_refines (id : NodeId) :
    (finishElement re id).Refines Eq (finishElement re' id) := by
  refine refines_node id (refines_pure _) fun n n' h => ?_
  obtain ⟨-, -, hcontext, -⟩ := RenderNode.of_norm_eq h
  dsimp only
  rw [hcontext]
  refine refines_element (refines_pure _) (fun data => ?_) (congrArg (·.kind) h)
  exact runHooks_refines hre _ id _

/-! ## Components -/

omit hre in
/-- Copying a variable of the caller. -/
theorem takeOver_refines (owner : NodeId) (cursor : Cursor) (name : String) :
    (takeOver owner cursor name).Refines Eq (takeOver owner cursor name) := by
  refine refines_change fun e => ?_
  rw [Engine.getVar_norm]
  cases e.getVar cursor.ctx name with
  | none => rfl
  | some v => exact e.initVar_norm owner name v

/-- Applying the attributes of a reference. -/
theorem prepareContext_refines (id owner : NodeId) (cursor : Cursor) (actions : List AttrAction) :
    (prepareContext re id owner cursor actions).Refines Eq
      (prepareContext re' id owner cursor actions) := by
  have hinit (name : String) (v : AttrValue) {rest rest' : Act (List (String × DynamicExpr))}
      (ih : rest.Refines Eq rest') : Act.Refines Eq (do
        let value ← operandAt re (.ofNode cursor.ctx cursor.frame id v.isReactive) v
        Act.change (·.initVar owner name value)
        let rest ← rest
        return (v.dynamic?.map fun e => (name, e)).toList ++ rest) (do
        let value ← operandAt re' (.ofNode cursor.ctx cursor.frame id v.isReactive) v
        Act.change (·.initVar owner name value)
        let rest ← rest'
        return (v.dynamic?.map fun e => (name, e)).toList ++ rest) := by
    refine refines_bind (operandAt_refines hre _ v) fun value => ?_
    refine refines_bind (refines_change fun e => e.initVar_norm owner name value) fun _ => ?_
    exact refines_bind ih fun _ => refines_pure _
  induction actions with
  | nil => exact refines_pure _
  | cons action actions ih =>
    cases action with
    | ref name =>
      exact refines_bind (refines_change fun e => e.bindRef_norm _ name id) fun _ => ih
    | cref name =>
      exact refines_bind (refines_change fun e => e.bindRef_norm _ name id) fun _ => ih
    | setFalse name =>
      exact refines_bind (refines_change fun e => e.initVar_norm owner name _) fun _ => ih
    | consume keys =>
      cases keys with
      | none => exact ih
      | some keys =>
        refine refines_bind (refines_read fun e => e.consumedNames_norm cursor keys) fun names => ?_
        exact refines_bind (refines_forM (takeOver_refines owner cursor) names) fun _ => ih
    | plain name v => exact hinit name v ih
    | scope name v => exact hinit name v ih
    | _ => exact ih

omit hre in
/-- Finding a component. It is found on both sides or on none, and then with one norm. -/
theorem resolveComponent_refines {α : Type} {V : α → α → Prop} (name : String)
    {f g : Option Routine → Act α} (hnone : (f none).Refines V (g none))
    (hsome : ∀ routine routine' : Routine, routine.norm = routine'.norm →
      (f (some routine)).Refines V (g (some routine'))) :
    Act.Refines V (resolveComponent name >>= f) (resolveComponent name >>= g) := by
  have hresolve : Act.Refines (fun found found' => found.map Routine.norm = found'.map Routine.norm)
      (resolveComponent name) (resolveComponent name) := by
    refine refines_step_of fun e e' he => ?_
    obtain ⟨hfound, hlibrary⟩ := Library.resolve_norm (congrArg Engine.library he) name
    refine ⟨hfound, ?_⟩
    change { e.norm with library := (e.library.resolve name).2.norm } =
      { e'.norm with library := (e'.library.resolve name).2.norm }
    rw [he, hlibrary]
  refine refines_bind_of hresolve fun found found' h => ?_
  cases found with
  | none =>
    cases found' with
    | none => exact hnone
    | some routine' => cases h
  | some routine =>
    cases found' with
    | none => cases h
    | some routine' => exact hsome routine routine' (Option.some.inj h)

/-- Calling the initial hook of a context. -/
theorem callInit_refines (ctx : NodeId) : (callInit re ctx).Refines Eq (callInit re' ctx) := by
  refine refines_bind (refines_read fun e => e.ownFunction_norm ctx "init") fun found => ?_
  cases found with
  | none => exact refines_pure _
  | some f =>
    refine refines_tryCatch ?_ fun err => ?_
    · exact refines_bind (invoke_refines hre ctx _ f []) fun _ => refines_pure _
    · cases err with
      | eval err =>
        exact refines_bind (refines_change fun e => e.diagnose_norm ctx none _ _) fun _ =>
          refines_pure _
      | _ => exact refines_throw _

/-- Running a code block. -/
theorem runCodeBlock_refines (body : List Stmt) (line : Nat) (cursor : Cursor) :
    (runCodeBlock re body line cursor).Refines Eq (runCodeBlock re' body line cursor) := by
  have hrestart := callOwnHook_refines hre cursor.ctx (some cursor.ctx) "on_restart" []
  refine refines_bind (refines_read fun e => ?_) fun executed => ?_
  · rw [Engine.context?_norm, Option.map_map]
    rfl
  cases executed with
  | true => exact hrestart
  | false =>
    have hcode : Act.Refines Eq
        (Act.evaluating (Interpreter.exec
          (Site.env re ⟨cursor.ctx, cursor.frame, some cursor.ctx, none⟩) line body))
        (Act.evaluating (Interpreter.exec
          (Site.env re' ⟨cursor.ctx, cursor.frame, some cursor.ctx, none⟩) line body)) :=
      refines_lift (Interpreter.exec_related (Site.env_refines hre _) line body)
    refine refines_bind (refines_change fun e => ?_) fun _ => ?_
    · rw [Engine.modifyContext_norm]
      exact fun _ => rfl
    refine refines_bind hcode fun outcome => ?_
    refine refines_bind (refines_discard (recover_refines _ _ _)) fun _ => ?_
    refine refines_bind (callInit_refines hre _) fun goesOn => ?_
    cases goesOn with
    | true => exact hrestart
    | false =>
      refine refines_bind (refines_read fun e => e.contextName_norm cursor.ctx) fun _ => ?_
      exact refines_bind (refines_throw _) fun _ => hrestart

/-- Evaluating the attributes of a reference again. -/
theorem propagateSources_refines (id : NodeId) {n n' : RenderNode} (hn : n.context = n'.context)
    {data data' : ContextData} (hdata : data.norm = data'.norm) :
    (propagateSources re id n data).Refines Eq (propagateSources re' id n' data') := by
  have hsources : data.sources = data'.sources := congrArg (·.sources) hdata
  have hframe : data.callerFrame = data'.callerFrame := congrArg (·.callerFrame) hdata
  unfold propagateSources
  rw [hn, hsources, hframe]
  refine refines_ite (refines_pure _) ?_
  refine refines_bind (refines_change fun e => e.purge_norm id) fun _ => ?_
  refine refines_bind (refines_read fun e => e.scopeOwner_norm id) fun owner => ?_
  refine refines_forM (fun source => ?_) _
  refine refines_bind (evaluateAt_refines hre _ _) fun v => ?_
  exact refines_change fun e => e.writeVar_norm owner _ v

/-- Calling the action of a signal. -/
theorem fireSignal_refines (ctx id : NodeId) (signal : SignalData) :
    (fireSignal re ctx id signal).Refines Eq (fireSignal re' ctx id signal) := by
  refine refines_bind (refines_read fun e => by rw [Engine.getVar_norm]) fun v => ?_
  exact callHookSafely_refines hre _ _ _ _

/-! ## Conditions, loops and sets -/

/-- Finding the branch whose condition holds. -/
theorem firstBranch_refines (ctx : NodeId) (frame : Option FrameId) (id : NodeId)
    (reactive : Bool) (branches : List Branch) : ∀ {branches' : List Branch},
    branches.map Branch.norm = branches'.map Branch.norm → ∀ index,
      (firstBranch re ctx frame id reactive index branches).Refines Eq
        (firstBranch re' ctx frame id reactive index branches') := by
  induction branches with
  | nil =>
    intro branches' h index
    rw [List.map_nil, List.nil_eq, List.map_eq_nil_iff] at h
    subst h
    exact refines_pure none
  | cons branch branches ih =>
    intro branches' h index
    cases branches' with
    | nil => cases h
    | cons branch' branches' =>
      rw [List.map_cons, List.map_cons, List.cons.injEq] at h
      have hpredicate : branch.predicate = branch'.predicate := congrArg (·.predicate) h.1
      unfold firstBranch
      rw [hpredicate]
      cases branch'.predicate with
      | none => exact refines_pure _
      | some e =>
        refine refines_bind (evaluateAt_refines hre _ e) fun v => ?_
        exact refines_ite (refines_pure _) (ih h.2 (index + 1))

/-- Selecting a branch. -/
theorem selectBranch_refines (id : NodeId) :
    (selectBranch re id).Refines Eq (selectBranch re' id) := by
  refine refines_node id (refines_pure _) fun n n' h => ?_
  obtain ⟨-, -, hcontext, -, hframe, -⟩ := RenderNode.of_norm_eq h
  dsimp only
  rw [hcontext, hframe]
  refine refines_condition (refines_pure _) (fun data data' hdata => ?_) (congrArg (·.kind) h)
  have hreactive : data.reactive = data'.reactive := congrArg (·.reactive) hdata
  rw [hreactive]
  exact firstBranch_refines hre _ _ id _ _ (congrArg (·.branches) hdata) 0

/-- Evaluating the items of a loop. -/
theorem loopItems_refines (id : NodeId) : (loopItems re id).Refines Eq (loopItems re' id) := by
  refine refines_loopParts id (refines_pure _) fun spec spec' cursor h => ?_
  have hiterable : spec.iterable = spec'.iterable := congrArg (·.iterable) h
  dsimp only
  rw [hiterable]
  refine refines_bind (evaluateAt_refines hre _ _) fun v => ?_
  cases v.items? with
  | some items => exact refines_pure _
  | none =>
    exact refines_bind (refines_change fun e => e.diagnose_norm _ _ _ _) fun _ => refines_pure _

/-- Evaluating the key of an item. -/
theorem loopKey_refines {spec spec' : LoopSpec} (h : spec.norm = spec'.norm) (cursor : Cursor)
    (item : Value) :
    (loopKey re spec cursor item).Refines Eq (loopKey re' spec' cursor item) := by
  have hvar : spec.var = spec'.var := congrArg (·.var) h
  have hidentity : spec.identity = spec'.identity := congrArg (·.identity) h
  unfold loopKey
  rw [hvar, hidentity]
  cases spec'.identity with
  | none => exact refines_pure _
  | some e =>
    refine refines_bind (refines_step fun e => e.addFrame_norm _ _) fun frame => ?_
    exact refines_bind (evaluateAt_refines hre _ _) fun _ => refines_pure _

/-- Evaluating the keys of the items of a loop. -/
theorem wantedItems_refines {spec spec' : LoopSpec} (h : spec.norm = spec'.norm) (cursor : Cursor)
    (items : List Value) : ∀ wanted,
    (wantedItems re spec cursor items wanted).Refines Eq
      (wantedItems re' spec' cursor items wanted) := by
  induction items with
  | nil => exact fun wanted => refines_pure wanted
  | cons item items ih =>
    intro wanted
    exact refines_bind (loopKey_refines hre h cursor item) fun _ => ih _

/-- Evaluating the value of a set. -/
theorem setValue_refines (id : NodeId) : (setValue re id).Refines Eq (setValue re' id) := by
  refine refines_node id (refines_pure _) fun n n' h => ?_
  obtain ⟨-, -, hcontext, -, hframe, -⟩ := RenderNode.of_norm_eq h
  dsimp only
  rw [hcontext, hframe]
  refine refines_set (refines_pure _) (fun data data' hdata => ?_) (congrArg (·.kind) h)
  have hvalue : data.value = data'.value := congrArg (·.value) hdata
  rw [hvalue]
  exact evaluateAt_refines hre _ _

/-- Evaluating the attributes of a carrier. -/
theorem carrierTexts_refines (cursor : Cursor) (attrs : List (String × AttrValue)) :
    (carrierTexts re cursor attrs).Refines Eq (carrierTexts re' cursor attrs) := by
  refine refines_mapM (fun attr => ?_) attrs
  obtain ⟨name, v⟩ := attr
  cases v with
  | empty => exact refines_pure _
  | _ => exact refines_bind (operandAt_refines hre _ _) fun _ => refines_pure _

/-- Evaluating the name of a component. -/
theorem componentName_refines (cursor : Cursor) (name : ComponentName) :
    (componentName re cursor name).Refines Eq (componentName re' cursor name) := by
  cases name with
  | fixed name => exact refines_pure _
  | dynamic e => exact refines_bind (evaluateAt_refines hre _ e) fun _ => refines_pure _

end Render
end
end ReactiveView
