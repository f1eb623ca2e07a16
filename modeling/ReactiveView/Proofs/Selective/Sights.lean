import ReactiveView.Proofs.Selective.Evaluation
import ReactiveView.Proofs.Structure.Building

/-!
# What selective nodes show

A selective template evaluates nothing but readable expressions whose reads are recorded
(`Step.Selective`). What its nodes show is determined by what they see around them: a `Look` computes
it from an `Outlook` alone, and lists the variables that it has read on the way. The operations that
refresh nodes do the same in the tree (`Act.Looks`): they succeed with the result of the look, record
what it reads, and change nothing else.

A look depends on nothing but the variables that it reads (`Act.Looks.steady`).
-/

namespace ReactiveView

/-! ## Selective templates -/

/-- Whether an expression is readable, and its reads are recorded. -/
def DynamicExpr.selective (e : DynamicExpr) : Bool := e.reactive && e.expr.readable

/-- Whether an operand is a literal or a selective expression. -/
def AttrValue.selective : AttrValue → Bool
  | dynamic e => e.selective
  | _ => true

/-- Whether an attribute shows an operand that is selective. A switch needs an expression. -/
def AttrAction.selective : AttrAction → Bool
  | plain _ v | styleEntry _ v | dynamicSet _ v | data _ v | asset _ v | style v | classes v | type v
  | value v | localize v => v.selective
  | classSwitch _ (.dynamic e) => e.selective
  | _ => false

/-- Selective attributes have no hooks and keep nothing from being built. -/
theorem AttrAction.quiet_of_selective {a : AttrAction} (h : a.selective = true) :
    a.initHook? = none ∧ a.renderHook? = none ∧ a.isNotRender = false := by
  cases a with
  | ref | cref | scope | onInit | onRender | bindValue | reactive | setFalse | consume => cases h
  | _ => exact ⟨rfl, rfl, rfl⟩

/-- The expression of a text. -/
def TextSource.dynamic? : TextSource → Option DynamicExpr
  | literal _ => none
  | dynamic e => some e

/-- Whether a text is a literal or a selective expression. -/
def TextSource.selective (source : TextSource) : Bool := source.dynamic?.all (·.selective)

/-- Whether the condition of a branch is selective, or one in a reactive condition. -/
def Branch.selective (reactive : Bool) (branch : Branch) : Bool :=
  branch.predicate.all fun e => (reactive || e.reactive) && e.expr.readable

/-- Whether items are told apart by nothing but what they are themselves. -/
def LoopSpec.separable (spec : LoopSpec) : Bool :=
  spec.identity.all fun e => e.expr.readable && e.expr.names.all (· == spec.var)

/-- A step of a selective template, with all that is built inside of it. -/
inductive Step.Selective : Step → Prop
  /-- A text. -/
  | text {source : TextSource} (source_ok : source.selective = true) : Selective (.text source)
  /-- An element with a text of its own. -/
  | leaf {tag : String} {actions : List AttrAction} {source : TextSource}
      (actions_ok : ∀ a ∈ actions, a.selective = true) (source_ok : source.selective = true) :
      Selective (.element tag actions (.text source))
  /-- An element. -/
  | element {tag : String} {actions : List AttrAction} {body : Body}
      (actions_ok : ∀ a ∈ actions, a.selective = true) (inside : ∀ s ∈ body.steps, Selective s) :
      Selective (.element tag actions (.body body))
  /-- A condition. -/
  | choice {branches : List Branch} {reactive : Bool}
      (branches_ok : ∀ b ∈ branches, b.selective reactive = true)
      (inside : ∀ b ∈ branches, ∀ s ∈ b.body.steps, Selective s) :
      Selective (.choice branches reactive)
  /-- A loop. -/
  | loop {spec : LoopSpec} (iterable_ok : spec.iterable.selective = true)
      (identity_ok : spec.separable = true) (inside : ∀ s ∈ spec.body.steps, Selective s)
      (empty : ∀ body, spec.empty = some body → ∀ s ∈ body.steps, Selective s) :
      Selective (.loop spec)
  /-- A set. -/
  | set {name : String} {value : DynamicExpr} {body : Body} (value_ok : value.selective = true)
      (inside : ∀ s ∈ body.steps, Selective s) : Selective (.set name value body)

/-! ## Outlooks -/

namespace Outlook

variable {o o' : Outlook}

/-- A text as it is shown. -/
def shown (o : Outlook) (text : String) : String :=
  if text.toList.head? = some '#' then o.translator.translate text else text

/-- What is seen once a name is bound. -/
def bind (o : Outlook) (name : String) (v : Value) : Outlook :=
  { o with vars := o.vars.bind name v }

/-- The variables are inert, and no text asks to stop. -/
structure Quiet (o : Outlook) : Prop where
  /-- The variables are inert. -/
  inert : o.vars.Inert
  /-- No translation is taken as a request to stop. -/
  steady : o.translator.cancelOn = none

/-- Binding an inert value stays quiet. -/
theorem Quiet.bind (h : o.Quiet) (name : String) {v : Value} (hv : v.inert = true) :
    (o.bind name v).Quiet := ⟨h.inert.bind name hv, h.steady⟩

/-- Showing a text does nothing else. -/
theorem Quiet.localizeText (h : o.Quiet) {e : Engine} (htranslator : e.translator = o.translator)
    (text : String) : e.localizeText text = (o.shown text, e) := by
  have hcancel : e.translator.cancelOn = none := htranslator ▸ h.steady
  unfold Engine.localizeText shown
  rw [hcancel, htranslator]
  split
  · rw [if_neg nofun]
  · rfl

/-- Two outlooks that differ in other variables only. -/
structure Agrees (o o' : Outlook) (names : List String) : Prop where
  /-- The variables. -/
  vars : ∀ x ∈ names, o.vars x = o'.vars x
  /-- The translations. -/
  translator : o'.translator = o.translator
  /-- The place of assets. -/
  assets : o'.assets = o.assets
  /-- The component. -/
  component : o'.component = o.component

/-- What agrees on more names. -/
theorem Agrees.mono {names names' : List String} (h : o.Agrees o' names')
    (hsub : ∀ x ∈ names, x ∈ names') : o.Agrees o' names :=
  ⟨fun x hx => h.vars x (hsub x hx), h.translator, h.assets, h.component⟩

end Outlook

/-! ## Looks -/

/-- A computation from what is seen, which lists the variables that it reads. -/
abbrev Look := ReaderT Outlook (StateM (List String))

namespace Look

/-- What a look finds. -/
def result {α : Type} (l : Look α) (o : Outlook) : α := (l.run o []).1

/-- What a look reads. -/
def reads {α : Type} (l : Look α) (o : Outlook) : List String := (l.run o []).2

/-- The value of an expression. -/
def value (e : DynamicExpr) : Look Value := fun o log =>
  (o.vars.value e.expr, log ++ o.vars.reads e.expr)

/-- What is seen besides variables. -/
def seen {α : Type} (f : Outlook → α) : Look α := do return f (← read)

/-- A text as it is shown. -/
def shown (text : String) : Look String := seen (·.shown text)

/-- The address of an asset. -/
def address (path : String) : Look String := seen fun o => assetAddress o.assets o.component path

/-- The value of an operand. -/
def operand : AttrValue → Look Value
  | .empty => pure (.bool true)
  | .literal s => pure (.str s)
  | .dynamic e => value e

/-- The value of an operand that is a truth value if it is a literal. -/
def flag : AttrValue → Look Value
  | .literal text => pure (literalFlag text)
  | v => operand v

/-- The text of an operand. -/
def text? : AttrValue → Look (Option String)
  | .empty => pure none
  | .literal text => pure (some text)
  | v => do return some (← operand v).display

/-- What an attribute does to the state of its element. -/
def apply (state : ElementState) : AttrAction → Look ElementState
  | .plain name v => do return state.setAttr name ((← text? v).getD "")
  | .classSwitch name v => do
    let v ← operand v
    return { state with switches := state.switches.insert name v.truthy }
  | .styleEntry property v => do return state.setStyle property (← operand v)
  | .dynamicSet name v => do return state.setDynamic name (← flag v)
  | .data name v => do
    let v ← operand v
    return { state with data := state.data.insert name v }
  | .asset attr v => do
    match ← text? v with
    | none => return state
    | some path =>
      let address ← address path
      return state.setAttr attr address
  | .style v => do return state.setStyles (← operand v)
  | .classes v => do return state.setClasses ((← text? v).getD "")
  | .type v => do return { state with valueType := ← text? v }
  | .value v => do return { state with value := some (← operand v) }
  | .localize v => do return { state with localize := (← flag v).truthy }
  | _ => pure state

/-- The text of an expression. -/
def text (e : DynamicExpr) : Look String := do
  let v ← value e
  shown v.display

/-- The state of an element with the text of an expression, if it has one. -/
def applyText (state : ElementState) : Option DynamicExpr → Look ElementState
  | none => pure state
  | some e => do
    let v ← value e
    let text ← shown v.display
    return { state with text := some text }

/-- What an element shows, beginning with a state. -/
def element (initial : ElementState) (actions : List AttrAction) (expr : Option DynamicExpr) :
    Look ElementState := do
  let state ← actions.foldlM apply initial
  applyText state expr

/-- The index of the first branch whose condition holds, counted from `index`. -/
def branch : (index : Nat) → List Branch → Look (Option Nat)
  | _, [] => pure none
  | index, b :: branches =>
    match b.predicate with
    | none => pure (some index)
    | some e => do
      let v ← value e
      if v.truthy then return some index else branch (index + 1) branches

/-- The items of a loop. -/
def items (e : DynamicExpr) : Look (List Value) := do return ((← value e).items?).getD []

end Look

/-! ## Texts and added classes -/

/-- A state with another text and other added classes, of which attributes say nothing. -/
def ElementState.besides (s : ElementState) (text : Option String) (added : List String) :
    ElementState := { s with text := text, extraClasses := added }

namespace Look

variable (t : Option String) (added : List String)

/-- What an attribute does has nothing to do with the text and added classes. -/
theorem apply_besides (state : ElementState) (a : AttrAction) (o : Outlook) (log : List String) :
    (apply (state.besides t added) a).run o log =
      (((apply state a).run o log).1.besides t added, ((apply state a).run o log).2) := by
  -- an attribute reads its operand and then puts the value into the state, whatever text that has
  have hmap {α : Type} (l : Look α) (f f' : α → ElementState)
      (h : ∀ v, f' v = (f v).besides t added) : (do return f' (← l) : Look ElementState).run o log =
        (((do return f (← l) : Look ElementState).run o log).1.besides t added,
          ((do return f (← l) : Look ElementState).run o log).2) := by
    change (f' _, _) = ((f _).besides t added, _)
    rw [h]
    rfl
  cases a with
  | styleEntry property v => exact hmap (operand v) _ _ fun v => by cases v <;> rfl
  | style v => exact hmap (operand v) _ _ fun v => by cases v <;> rfl
  | dynamicSet name v =>
    refine hmap (flag v) (fun v => state.setDynamic name v) _ fun v => ?_
    unfold ElementState.setDynamic
    split
    · rfl
    · rfl
    · rfl
    · split
      · rfl
      · split <;> rfl
  | asset attr v =>
    cases v <;> rfl
  | _ => rfl

/-- Nor has what attributes do in turn. -/
theorem element_besides (actions : List AttrAction) (state : ElementState) (o : Outlook)
    (log : List String) : (element (state.besides t added) actions none).run o log =
      (((element state actions none).run o log).1.besides t added,
        ((element state actions none).run o log).2) := by
  induction actions generalizing state log with
  | nil => rfl
  | cons a actions ih =>
    unfold element at ih ⊢
    rw [List.foldlM_cons, List.foldlM_cons]
    -- the other attributes begin with what the first one leaves
    have hfirst := apply_besides t added state a o log
    have hrest := ih ((apply state a).run o log).1 ((apply state a).run o log).2
    change ((actions.foldlM apply ((apply (state.besides t added) a).run o log).1 >>= fun s =>
      applyText s none).run o ((apply (state.besides t added) a).run o log).2) = _
    rw [hfirst]
    exact hrest

/-- The added classes stay. -/
theorem extraClasses_element (actions : List AttrAction) (state : ElementState)
    (expr : Option DynamicExpr) (o : Outlook) :
    ((element state actions expr).result o).extraClasses = state.extraClasses := by
  have hplain := congrArg Prod.fst
    (element_besides state.text state.extraClasses actions state o [])
  cases expr with
  | none => exact congrArg (·.extraClasses) hplain
  | some e => exact congrArg (·.extraClasses) hplain

/-- So does a text without an expression. -/
theorem text_element (actions : List AttrAction) (state : ElementState) (o : Outlook) :
    ((element state actions none).result o).text = state.text :=
  congrArg (fun p => p.1.text) (element_besides state.text state.extraClasses actions state o [])

/-- A text from the beginning is one that is added in the end, and reads nothing. -/
theorem element_with_text (actions : List AttrAction) (text : Option String) (o : Outlook) :
    (element { text := text } actions none).result o =
        { (element {} actions none).result o with text := text } ∧
      (element { text := text } actions none).reads o = (element {} actions none).reads o := by
  have hbesides := element_besides text [] actions {} o []
  have hresult := congrArg Prod.fst hbesides
  have hreads := congrArg Prod.snd hbesides
  have hadded := extraClasses_element actions {} none o
  refine ⟨hresult.trans ?_, hreads⟩
  unfold ElementState.besides
  exact congrArg (fun added => ({ (element {} actions none).result o with
    text := text, extraClasses := added } : ElementState)) hadded.symm

end Look

/-! ## Operations that look -/

/-- An operation at a site does what a look does: it has its result, records its reads, and changes
nothing else. The look depends on nothing but the variables that it reads. -/
structure Act.Looks {α : Type} (x : Act α) (site : Site) (l : Look α) : Prop where
  /-- The operation. -/
  gives : ∀ ⦃o : Outlook⦄ ⦃e : Engine⦄ ⦃log : List String⦄ ⦃r : Except EngineError α⦄ ⦃e' : Engine⦄,
    o.Quiet → site.Ready site.ctx o e log → x.Gives e r e' →
      r = .ok (l.run o log).1 ∧ e.Evaluates e' ∧
        site.Ready site.ctx o e' (l.run o log).2
  /-- What was read before stays listed. -/
  lists : ∀ (o : Outlook) (log : List String), ∀ x ∈ log, x ∈ (l.run o log).2
  /-- What the look depends on. -/
  steady : ∀ ⦃o o' : Outlook⦄ ⦃log : List String⦄, o.Quiet → o.Agrees o' (l.run o log).2 →
    l.run o' log = l.run o log

namespace Act

variable {α β : Type} {site : Site}

/-- A result. -/
theorem looks_pure (a : α) : (pure a : Act α).Looks site (pure a) where
  gives o e log r e' _ hready h := by
    obtain ⟨rfl, rfl⟩ := gives_pure.1 h
    exact ⟨rfl, .refl _ _ _, hready⟩
  lists _ _ _ hx := hx
  steady _ _ _ _ _ := rfl

/-- One operation after another. -/
theorem looks_bind {x : Act α} {f : α → Act β} {l : Look α} {l' : α → Look β}
    (hx : x.Looks site l) (hf : ∀ a, (f a).Looks site (l' a)) :
    (x >>= f).Looks site (l >>= l') where
  gives o e log r e' ho hready h := by
    rcases gives_bind.1 h with ⟨a, e₁, h₁, h₂⟩ | ⟨err, h₁, -⟩
    · obtain ⟨ha, hrevises₁, hready₁⟩ := hx.gives ho hready h₁
      obtain rfl := Except.ok.inj ha
      obtain ⟨hr, hrevises₂, hready₂⟩ := (hf _).gives ho hready₁ h₂
      exact ⟨hr, hrevises₁.trans hrevises₂, hready₂⟩
    · cases (hx.gives ho hready h₁).1
  lists o log n hn := (hf _).lists o _ n (hx.lists o log n hn)
  steady o o' log ho hagrees := by
    -- what the first operation reads is among what both read
    have hfirst : l.run o' log = l.run o log :=
      hx.steady ho (hagrees.mono ((hf _).lists o _))
    have hrest : (l' (l.run o log).1).run o' (l.run o log).2 = _ := (hf _).steady ho hagrees
    change (l' (l.run o' log).1).run o' (l.run o' log).2 = _
    rw [hfirst]
    exact hrest

/-- A result that is changed. -/
theorem looks_map {x : Act α} {l : Look α} (hx : x.Looks site l) (f : α → β) :
    (f <$> x).Looks site (do return f (← l)) := by
  rw [map_eq_pure_bind]
  exact looks_bind hx fun a => looks_pure (f a)

/-- The value of a readable expression. -/
theorem looks_value {re : Reentry} {e : DynamicExpr} (he : e.expr.readable = true) :
    (Render.evaluateAt re site e).Looks site (Look.value e) where
  gives _ _ _ _ _ ho hready h := Render.evaluateAt_gives rfl hready ho.inert he h
  lists _ _ _ hx := List.mem_append_left _ hx
  steady o o' log ho hagrees := by
    have hvars : ∀ x ∈ o.vars.reads e.expr, o.vars x = o'.vars x := fun x hx =>
      hagrees.vars x (List.mem_append_right _ hx)
    change (o'.vars.value e.expr, log ++ o'.vars.reads e.expr) =
      (o.vars.value e.expr, log ++ o.vars.reads e.expr)
    rw [Vars.value_congr ho.inert he hvars, Vars.reads_congr ho.inert he hvars]

/-- A text as it is shown. -/
theorem looks_shown (text : String) :
    (Act.step (·.localizeText text)).Looks site (Look.shown text) where
  gives o e log r e' ho hready h := by
    obtain ⟨rfl, rfl⟩ := gives_step.1 h
    have hshown := ho.localizeText (congrArg (·.translator) hready.outlook) text
    rw [hshown]
    exact ⟨rfl, .refl _ _ _, hready⟩
  lists _ _ _ hx := hx
  steady o o' log _ hagrees := by
    change (o'.shown text, log) = (o.shown text, log)
    unfold Outlook.shown
    rw [hagrees.translator]

/-- What is seen besides the variables. -/
theorem looks_read {f : Outlook → α} (hf : ∀ o o' : Outlook, o'.translator = o.translator →
    o'.assets = o.assets → o'.component = o.component → f o' = f o) :
    (Act.read fun e => f (e.outlook site.ctx site.frame)).Looks site (Look.seen f) where
  gives o e log r e' _ hready h := by
    obtain ⟨rfl, hsame⟩ := gives_read.1 h
    rw [hready.outlook, hsame]
    exact ⟨rfl, .refl _ _ _, hready⟩
  lists _ _ _ hx := hx
  steady o o' log _ hagrees := by
    change (f o', log) = (f o, log)
    rw [hf o o' hagrees.translator hagrees.assets hagrees.component]

/-- The address of an asset. -/
theorem looks_address (path : String) :
    (Act.read fun e => assetAddress e.assets (e.contextName site.ctx) path).Looks site
      (Look.address path) :=
  looks_read (f := fun o => assetAddress o.assets o.component path)
    fun _ _ _ hassets hcomponent => by rw [hassets, hcomponent]

end Act

namespace Render

open Act

variable {re : Reentry} {ctx id : NodeId} {frame : Option FrameId} {reactive : Bool}

section

variable {s : ElementSite}

/-- A selective expression is evaluated at the tracked site of its element. -/
theorem ElementSite.looks_value {e : DynamicExpr} (he : e.selective = true) :
    (evaluateAt re (s.siteOf e) e).Looks (s.site true) (Look.value e) := by
  obtain ⟨hreactive, hreadable⟩ := Bool.and_eq_true_iff.1 he
  have hsite : s.siteOf e = s.site true := by
    unfold ElementSite.siteOf
    rw [hreactive, Bool.or_true]
  rw [hsite]
  exact Act.looks_value hreadable

/-- The value of an operand. -/
theorem operandFor_looks {v : AttrValue} (hv : v.selective = true) :
    (operandFor re s v).Looks (s.site true) (Look.operand v) := by
  cases v with
  | empty => exact looks_pure _
  | literal text => exact looks_pure _
  | dynamic e => exact ElementSite.looks_value hv

/-- The value of an operand that is a truth value if it is a literal. -/
theorem flagFor_looks {v : AttrValue} (hv : v.selective = true) :
    (flagFor re s v).Looks (s.site true) (Look.flag v) := by
  cases v with
  | empty => exact looks_pure _
  | literal text => exact looks_pure _
  | dynamic e => exact ElementSite.looks_value hv

/-- The text of an operand. -/
theorem textFor?_looks {v : AttrValue} (hv : v.selective = true) :
    (textFor? re s v).Looks (s.site true) (Look.text? v) := by
  cases v with
  | empty => exact looks_pure _
  | literal text => exact looks_pure _
  | dynamic e => exact looks_bind (ElementSite.looks_value hv) fun _ => looks_pure _

/-- What an attribute does. -/
theorem applyAction_looks (state : ElementState) {a : AttrAction} (ha : a.selective = true) :
    (applyAction re s state a).Looks (s.site true) (Look.apply state a) := by
  cases a with
  | plain name v => exact looks_bind (textFor?_looks ha) fun _ => looks_pure _
  | classSwitch name v =>
    cases v with
    | dynamic e =>
      exact looks_bind (looks_map (ElementSite.looks_value ha) some) fun _ => looks_pure _
    | _ => cases ha
  | styleEntry property v => exact looks_bind (operandFor_looks ha) fun _ => looks_pure _
  | dynamicSet name v => exact looks_bind (flagFor_looks ha) fun _ => looks_pure _
  | data name v => exact looks_bind (operandFor_looks ha) fun _ => looks_pure _
  | asset attr v =>
    refine looks_bind (textFor?_looks ha) fun path => ?_
    cases path with
    | none => exact looks_pure state
    | some path =>
      exact looks_bind (@looks_address (s.site true) path) fun address =>
        looks_pure (state.setAttr attr address)
  | style v => exact looks_bind (operandFor_looks ha) fun _ => looks_pure _
  | classes v => exact looks_bind (textFor?_looks ha) fun _ => looks_pure _
  | type v => exact looks_bind (textFor?_looks ha) fun _ => looks_pure _
  | value v => exact looks_bind (operandFor_looks ha) fun _ => looks_pure _
  | localize v => exact looks_bind (flagFor_looks ha) fun _ => looks_pure _
  | _ => cases ha

/-- What attributes do in turn. -/
theorem foldlM_looks {actions : List AttrAction} (h : ∀ a ∈ actions, a.selective = true)
    (state : ElementState) :
    (actions.foldlM (applyAction re s) state).Looks (s.site true)
      (actions.foldlM Look.apply state) := by
  induction actions generalizing state with
  | nil => exact looks_pure state
  | cons a actions ih =>
    rw [List.foldlM_cons, List.foldlM_cons]
    exact looks_bind (applyAction_looks state (h a List.mem_cons_self)) fun state =>
      ih (fun b hb => h b (List.mem_cons_of_mem a hb)) state

/-- The text of an element. -/
theorem applyText_looks (state : ElementState) {expr : Option DynamicExpr}
    (h : expr.all (·.selective) = true) :
    (applyText re s state expr).Looks (s.site true) (Look.applyText state expr) := by
  cases expr with
  | none => exact looks_pure state
  | some e =>
    exact looks_bind (ElementSite.looks_value h) fun v =>
      looks_bind (looks_shown v.display) fun _ => looks_pure _

/-- What an element shows. -/
theorem element_looks (initial : ElementState) {actions : List AttrAction}
    {expr : Option DynamicExpr} (hactions : ∀ a ∈ actions, a.selective = true)
    (hexpr : expr.all (·.selective) = true) :
    (do let state ← actions.foldlM (applyAction re s) initial; applyText re s state expr).Looks
      (s.site true) (Look.element initial actions expr) :=
  looks_bind (foldlM_looks hactions initial) fun state => applyText_looks state hexpr

end

/-- The branch of a condition. -/
theorem firstBranch_looks {branches : List Branch} (h : ∀ b ∈ branches, b.selective reactive = true)
    (index : Nat) : (firstBranch re ctx frame id reactive index branches).Looks
      (.ofNode ctx frame id true) (Look.branch index branches) := by
  induction branches generalizing index with
  | nil => exact looks_pure none
  | cons b branches ih =>
    have hb := h b List.mem_cons_self
    have ih := ih fun b hb => h b (List.mem_cons_of_mem _ hb)
    unfold firstBranch Look.branch
    unfold Branch.selective at hb
    cases hpredicate : b.predicate with
    | none => exact looks_pure _
    | some e =>
      rw [hpredicate, Option.all_some] at hb
      obtain ⟨hreactive, hreadable⟩ := Bool.and_eq_true_iff.1 hb
      dsimp only
      rw [hreactive]
      refine looks_bind (looks_value hreadable) fun v => ?_
      cases v.truthy with
      | true => exact looks_pure _
      | false => exact ih (index + 1)

/-- The text of a text node. -/
theorem nodeText_looks {n : RenderNode} {e : DynamicExpr} (he : e.selective = true) :
    (nodeText re id n e).Looks (.ofNode n.context n.frame id true) (Look.text e) := by
  obtain ⟨hreactive, hreadable⟩ := Bool.and_eq_true_iff.1 he
  unfold nodeText
  rw [hreactive]
  exact looks_bind (looks_value hreadable) fun v => looks_shown v.display

/-- The state of an element that code has not edited. -/
theorem elementState_looks {n : RenderNode} {data : ElementData} (hoverlay : data.overlay = {})
    (hactions : ∀ a ∈ data.actions, a.selective = true)
    (hexpr : data.textExpr.all (·.selective) = true) :
    (elementState re id n data).Looks (.ofNode n.context n.frame id true)
      (Look.element (initialState data) data.actions data.textExpr) := by
  -- code has added nothing to what the attributes say
  have happly (s : ElementState) : data.overlay.apply s = s := by
    rw [hoverlay]
    unfold ElementOverlay.apply
    rw [Bool.or_false]
    rfl
  unfold elementState
  simp only [happly, bind_pure]
  exact element_looks (s := ⟨id, n.context, n.frame, n.flags.reactive⟩) _ hactions hexpr

/-- The items of a loop; a value without items has none. -/
theorem items_looks {e : DynamicExpr} (he : e.selective = true) :
    (do
      let v ← evaluateAt re (.ofNode ctx frame id e.reactive) e
      match v.items? with
      | some items => return items
      | none =>
        Act.change (·.diagnose ctx (some id) (v.typeName ++ " is not iterable") none)
        return [] : Act (List Value)).Looks (.ofNode ctx frame id true) (Look.items e) := by
  obtain ⟨hreactive, hreadable⟩ := Bool.and_eq_true_iff.1 he
  rw [hreactive]
  refine looks_bind (looks_value hreadable) fun v => ?_
  cases v.items? with
  | some items => exact looks_pure items
  | none =>
    -- the problem that is noted is no part of what is seen
    refine ⟨fun o e log r e' _ hready h => ?_, fun _ _ _ hx => hx, fun _ _ _ _ _ => rfl⟩
    dsimp only at h
    have h := gives_change_bind.1 h
    obtain ⟨rfl, rfl⟩ := gives_pure.1 h
    have hdiagnosed : e.Evaluates _ :=
      .diagnose ctx (some id) (v.typeName ++ " is not iterable") none
    exact ⟨rfl, hdiagnosed, hready.revises hdiagnosed⟩

/-- The value of a set. -/
theorem setValue_looks {e : DynamicExpr} (he : e.selective = true) :
    (evaluateAt re (.ofNode ctx frame id e.reactive) e).Looks (.ofNode ctx frame id true)
      (Look.value e) := by
  obtain ⟨hreactive, hreadable⟩ := Bool.and_eq_true_iff.1 he
  rw [hreactive]
  exact looks_value hreadable

end Render

/-! ## Looking for a node -/

section

variable {α : Type} {x : Act α} {l : Look α} {root id : NodeId} {frame : Option FrameId} {o : Outlook}
  {e e' : Engine} {r : Except EngineError α}

/-- An operation that looks for a node leaves the tree as it is, and covers what it reads. -/
theorem Act.Looks.run (hx : x.Looks (.ofNode root frame id true) l) (ho : o.Quiet)
    (hroot : e.Grounded root) (hout : e.outlook root frame = o) (hid : e.contains id = true)
    (h : x.Gives e r e') : r = .ok (l.result o) ∧ e.Evaluates e' ∧
      e'.Covers root frame id (l.reads o) := by
  have hready : (Site.ofNode root frame id true).Ready root o e [] :=
    ⟨hroot, hout, fun i hi => Option.some.inj hi ▸ hid, fun _ hn => absurd hn List.not_mem_nil⟩
  obtain ⟨hr, hrevises, hready'⟩ := hx.gives ho hready h
  exact ⟨hr, hrevises, fun n hn hfree => hready'.recorded n hn id rfl hfree⟩

/-- A look that reads nothing else finds the same. -/
theorem Act.Looks.congr {site : Site} {o' : Outlook} (hx : x.Looks site l) (ho : o.Quiet)
    (h : o.Agrees o' (l.reads o)) : l.result o' = l.result o ∧ l.reads o' = l.reads o := by
  have hrun : l.run o' [] = l.run o [] := hx.steady ho h
  unfold Look.result Look.reads
  rw [hrun]
  exact ⟨rfl, rfl⟩

end

/-! ## Refreshing nodes -/

section

variable {re : Reentry} {root id : NodeId} {o : Outlook} {e e' : Engine} {n : RenderNode}
  {M R : NodeId → Prop}

/-- A change of what a node is, by which it remains of the same make. -/
theorem Engine.Revises.modifyKind {f : RenderKind → RenderKind} (hM : M id)
    (hf : ∀ n, e.node? id = some n →
      (f n.kind).skeleton = n.kind.skeleton ∧ n.kind.context? = none) :
    e.Revises M R (e.modifyKind id f) := by
  -- what is no component instance has no variables and no records that could change
  have hcontext {n : RenderNode} (hn : e.node? id = some n) : (f n.kind).context? = none := by
    obtain ⟨hsame, hnone⟩ := hf n hn
    have h := congrArg RenderKind.context? hsame
    rw [RenderKind.context?_skeleton, RenderKind.context?_skeleton, hnone] at h
    exact Option.map_eq_none_iff.1 h
  refine ⟨.modifyNode_of_index (fun n hn => ⟨?_, fun h => absurd hM h⟩) fun n hn => ?_, ?_⟩
  · unfold RenderNode.place
    dsimp only
    rw [hcontext hn, (hf n hn).2]
  · unfold RenderKind.index?
    dsimp only
    rw [hcontext hn, (hf n hn).2]
  · refine shape_modifyNode_of_same fun n hn => ?_
    unfold RenderNode.shape RenderNode.skeleton
    dsimp only
    rw [(hf n hn).1]

/-- A node whose kind was changed. -/
theorem Engine.node?_modifyKind {f : RenderKind → RenderKind} (hn : e.node? id = some n) :
    (e.modifyKind id f).node? id = some { n with kind := f n.kind } := by
  unfold Engine.modifyKind
  rw [node?_modifyNode, if_pos rfl, hn]
  rfl

namespace Render

variable {l : Look ElementState} {t : Look String}

/-- Refreshing an element shows what a look finds, and covers what it reads. -/
theorem refreshElement_gives {data : ElementData} (hn : e.node? id = some n)
    (hkind : n.kind = .element data) (hctx : n.context = root) (hoverlay : data.overlay = {})
    (hactions : ∀ a ∈ data.actions, a.selective = true)
    (hexpr : data.textExpr.all (·.selective) = true)
    (hl : l = Look.element (initialState data) data.actions data.textExpr) (ho : o.Quiet)
    (hroot : e.Grounded root) (hout : e.outlook root n.frame = o) {r : Except EngineError Bool}
    (h : (refreshElement re id).Gives e r e') : (∃ changed, r = .ok changed) ∧
      e.Revises (· = id) (fun _ => False) e' ∧ e'.Covers root n.frame id (l.reads o) ∧
      ∃ n', e'.node? id = some n' ∧ n'.kind = .element { data with state := l.result o } := by
  rw [refreshElement_eq] at h
  have h := Act.gives_read_bind.1 h
  rw [hn] at h
  dsimp only at h
  rw [hkind] at h
  have hlooks : (elementState re id n data).Looks (.ofNode root n.frame id true) l := by
    rw [← hctx, hl]
    exact elementState_looks hoverlay hactions hexpr
  have hlive : e.contains id = true := Engine.contains_iff.2 ⟨n, hn⟩
  obtain ⟨state, e₁, h₁, h₂⟩ := Act.gives_bind_of_ok h fun r₁ hr =>
    ⟨_, (hlooks.run ho hroot hout hlive hr).1⟩
  obtain ⟨hstate, hrevises, hcovers⟩ := hlooks.run ho hroot hout hlive h₁
  obtain rfl := Except.ok.inj hstate
  obtain ⟨rfl, rfl⟩ := Act.gives_step.1 h₂
  -- the element is as it was when its state is shown
  obtain ⟨n₁, hn₁, hkind₁⟩ := hrevises.kind hn hkind (fun h => h) rfl
  have helement : e₁.element? id = some data := by
    unfold Engine.element?
    rw [hn₁, Option.bind_some, hkind₁]
    rfl
  have hshow : (e₁.showState id (l.result o)).2 =
      e₁.modifyElement id fun data => { data with state := l.result o } := by
    unfold Engine.showState
    rw [helement]
  have hlast : e₁.Revises (· = id) (fun _ => False) (e₁.showState id (l.result o)).2 := by
    rw [hshow]
    refine .modifyKind rfl fun m hm => ?_
    obtain rfl := Option.some.inj (hn₁.symm.trans hm)
    rw [hkind₁]
    exact ⟨rfl, rfl⟩
  refine ⟨⟨_, rfl⟩, (hrevises.mono (fun _ h => h.elim) fun _ h => h).trans hlast, ?_, ?_⟩
  · exact hcovers.revises hlast (hrevises.contains_iff.2 hlive) fun h => h
  · rw [hshow]
    refine ⟨_, Engine.node?_modifyKind hn₁, ?_⟩
    rw [hkind₁]
    rfl

/-- Refreshing a text node shows what a look finds, and covers what it reads. -/
theorem refreshText_gives {text : String} {ex : DynamicExpr} (hn : e.node? id = some n)
    (hkind : n.kind = .text ⟨text, some ex⟩) (hctx : n.context = root) (hex : ex.selective = true)
    (ho : o.Quiet) (hroot : e.Grounded root) (hout : e.outlook root n.frame = o)
    {r : Except EngineError Bool} (h : (refreshText re id).Gives e r e') :
    (∃ changed, r = .ok changed) ∧ e.Revises (· = id) (fun _ => False) e' ∧
      e'.Covers root n.frame id ((Look.text ex).reads o) ∧
      ∃ n', e'.node? id = some n' ∧ n'.kind = .text ⟨(Look.text ex).result o, some ex⟩ := by
  rw [refreshText_eq] at h
  have h := Act.gives_read_bind.1 h
  rw [hn] at h
  dsimp only at h
  rw [hkind] at h
  have hlooks : (nodeText re id n ex).Looks (.ofNode root n.frame id true) (Look.text ex) := by
    rw [← hctx]
    exact nodeText_looks hex
  have hlive : e.contains id = true := Engine.contains_iff.2 ⟨n, hn⟩
  obtain ⟨shown, e₁, h₁, h₂⟩ := Act.gives_bind_of_ok h fun r₁ hr =>
    ⟨_, (hlooks.run ho hroot hout hlive hr).1⟩
  obtain ⟨hshown, hrevises, hcovers⟩ := hlooks.run ho hroot hout hlive h₁
  obtain rfl := Except.ok.inj hshown
  obtain ⟨rfl, rfl⟩ := Act.gives_step.1 h₂
  -- the node is as it was when its text is shown
  obtain ⟨n₁, hn₁, hkind₁⟩ := hrevises.kind hn hkind (fun h => h) rfl
  have hshow : (e₁.showText id ((Look.text ex).result o)).2 = e₁.modifyKind id fun _ =>
      .text ⟨(Look.text ex).result o, some ex⟩ := by
    unfold Engine.showText
    rw [hn₁, Option.map_some, hkind₁]
  have hlast : e₁.Revises (· = id) (fun _ => False)
      (e₁.showText id ((Look.text ex).result o)).2 := by
    rw [hshow]
    refine .modifyKind rfl fun m hm => ?_
    obtain rfl := Option.some.inj (hn₁.symm.trans hm)
    rw [hkind₁]
    exact ⟨rfl, rfl⟩
  refine ⟨⟨_, rfl⟩, (hrevises.mono (fun _ h => h.elim) fun _ h => h).trans hlast, ?_, ?_⟩
  · exact hcovers.revises hlast (hrevises.contains_iff.2 hlive) fun h => h
  · rw [hshow]
    exact ⟨_, Engine.node?_modifyKind hn₁, rfl⟩

/-- Selecting a branch finds what a look finds. -/
theorem selectBranch_gives {data : ConditionData} (hn : e.node? id = some n)
    (hkind : n.kind = .condition data) (hctx : n.context = root)
    (hbranches : ∀ b ∈ data.branches, b.selective data.reactive = true) (ho : o.Quiet)
    (hroot : e.Grounded root) (hout : e.outlook root n.frame = o)
    {r : Except EngineError (Option Nat)} (h : (selectBranch re id).Gives e r e') :
    r = .ok ((Look.branch 0 data.branches).result o) ∧ e.Evaluates e' ∧
      e'.Covers root n.frame id ((Look.branch 0 data.branches).reads o) := by
  have h := Act.gives_read_bind.1 h
  rw [hn] at h
  dsimp only at h
  rw [hkind, hctx] at h
  exact (firstBranch_looks hbranches 0).run ho hroot hout (Engine.contains_iff.2 ⟨n, hn⟩) h

/-- Finding the items of a loop finds what a look finds. -/
theorem loopItems_gives {data : LoopData} (hn : e.node? id = some n)
    (hkind : n.kind = .loop data) (hctx : n.context = root)
    (hiterable : data.spec.iterable.selective = true) (ho : o.Quiet)
    (hroot : e.Grounded root) (hout : e.outlook root n.frame = o)
    {r : Except EngineError (List Value)} (h : (loopItems re id).Gives e r e') :
    r = .ok ((Look.items data.spec.iterable).result o) ∧ e.Evaluates e' ∧
      e'.Covers root n.frame id ((Look.items data.spec.iterable).reads o) := by
  have h := Act.gives_read_bind.1 h
  have hparts : e.loopParts? id = some (data.spec, ⟨id, root, n.frame, e.namespaceAt id⟩) := by
    unfold Engine.loopParts?
    rw [hn, Option.bind_some, hkind, hctx]
  rw [hparts] at h
  exact (items_looks hiterable).run ho hroot hout (Engine.contains_iff.2 ⟨n, hn⟩) h

/-- Finding the value of a set finds what a look finds. -/
theorem setValue_gives {data : SetData} (hn : e.node? id = some n)
    (hkind : n.kind = .set data) (hctx : n.context = root) (hvalue : data.value.selective = true)
    (ho : o.Quiet) (hroot : e.Grounded root) (hout : e.outlook root n.frame = o)
    {r : Except EngineError Value} (h : (setValue re id).Gives e r e') :
    r = .ok ((Look.value data.value).result o) ∧ e.Evaluates e' ∧
      e'.Covers root n.frame id ((Look.value data.value).reads o) := by
  have h := Act.gives_read_bind.1 h
  rw [hn] at h
  dsimp only at h
  rw [hkind, hctx] at h
  exact (setValue_looks hvalue).run ho hroot hout (Engine.contains_iff.2 ⟨n, hn⟩) h

end Render

end
end ReactiveView
