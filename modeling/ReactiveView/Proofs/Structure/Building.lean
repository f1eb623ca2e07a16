import ReactiveView.Proofs.Structure.Effects

/-!
# Building keeps trees

What building does to the view. Every build step puts new nodes at the end of the children of the
node at its cursor and changes nothing else (`Render.buildBody_does`). That a component which cannot
be set up leaves nothing behind follows from what was built for it being under it.

A node with content is created, and then completed: `View.Allocated` says what comes of the first,
`View.Fills` what comes of the second.
-/

namespace ReactiveView

/-- What building needs of the operations that are entered anew. -/
structure Reentry.Builds (re : Reentry) : Prop where
  /-- They keep what operations cannot break. -/
  operates : re.Operates
  /-- Building builds under the node at the cursor. -/
  build : ∀ body cursor, (re.build body cursor).Does fun v r v' =>
    v.Admits cursor → v.Grows cursor.parent r v'

/-- Evaluation makes no component instance. -/
theorem RenderKind.context?_skeleton (kind : RenderKind) :
    kind.skeleton.context? = kind.context?.map ContextData.skeleton := by
  cases kind <;> rfl

/-- The shape of a node shows whether it is a component instance. -/
theorem RenderNode.isContext_shape (n : RenderNode) : n.shape.isContext = n.isContext := by
  unfold isContext shape skeleton
  rw [RenderKind.context?_skeleton, Option.isSome_map]

/-- The shape of a node shows whether it keeps books. -/
theorem RenderNode.isKeyed_shape (n : RenderNode) : n.shape.isKeyed = n.isKeyed := by
  unfold isKeyed shape skeleton
  cases n.kind <;> rfl

namespace Engine

variable {e : Engine} {id p : NodeId} {n : RenderNode}

/-- The children of a node in the view are those in the engine. -/
theorem childrenOf_view (hn : e.view.shape id = some n) : e.childrenOf id = n.children := by
  obtain ⟨m, hm, rfl⟩ := node?_of_shape hn
  unfold childrenOf
  rw [hm]
  rfl

/-- A new node in the view. -/
theorem allocated_addNode (hvalid : e.nodes.Valid) {kind : RenderKind} (hkind : kind.Unbuilt)
    (c : Cursor) (flags : NodeFlags) (hcalm : (e.addNode kind c flags).2.Calm)
    (hlater : e.view.Later (e.addNode kind c flags).2.view) (hp : e.view.live c.parent = true) :
    View.Allocated c kind (e.addNode kind c flags).1 e.view (e.addNode kind c flags).2.view := by
  have hroom : e.nodes.Roomy := by
    have hcalm' : e.Calm := Classical.byContradiction fun h =>
      calm_stable.closed.addNode hkind c flags h hcalm
    exact hcalm'.2
  obtain ⟨hfresh, hshape⟩ := shape_addNode hvalid hroom kind c flags
  refine ⟨hfresh, hlater, hshape ?_⟩
  rintro heq
  obtain ⟨n, hn⟩ := View.live_iff.1 hp
  rw [heq] at hn
  exact absurd (hfresh.symm.trans hn) (Option.some_ne_none n).symm

/-- The data of a component instance in the view. -/
theorem view_of_context? {data : ContextData} (h : e.context? id = some data) :
    ∃ n, e.view.shape id = some n ∧ n.kind.context? = some data.skeleton := by
  obtain ⟨m, hm, hdata⟩ := Option.bind_eq_some_iff.1 h
  refine ⟨m.shape, shape_of_node? hm, ?_⟩
  exact (RenderKind.context?_skeleton m.kind).trans (by rw [hdata, Option.map_some])

/-- The data of a component instance in the engine. -/
theorem context?_of_view (hn : e.view.shape id = some n) (hctx : n.isContext = true) :
    ∃ data, e.context? id = some data ∧ n.kind.context? = some data.skeleton := by
  obtain ⟨m, hm, rfl⟩ := node?_of_shape hn
  have hkind : m.shape.kind.context? = m.kind.context?.map ContextData.skeleton :=
    RenderKind.context?_skeleton m.kind
  unfold RenderNode.isContext at hctx
  rw [hkind, Option.isSome_map] at hctx
  obtain ⟨data, hdata⟩ := Option.isSome_iff_exists.1 hctx
  refine ⟨data, ?_, by rw [hkind, hdata, Option.map_some]⟩
  unfold context?
  rw [hm, Option.bind_some, hdata]

/-- A node that was found. -/
theorem view_of_node? (h : e.node? id = some n) : e.view.shape id = some n.shape :=
  shape_of_node? h

/-- What a loop repeats, and the cursor at which it builds. -/
theorem loopParts?_some {spec : LoopSpec} {c : Cursor} (h : e.loopParts? id = some (spec, c)) :
    ∃ n data, e.view.shape id = some n ∧ n.kind = .loop data ∧ data.spec = spec ∧ c.parent = id ∧
      c.ctx = n.context := by
  obtain ⟨m, hm, h⟩ := Option.bind_eq_some_iff.1 h
  split at h
  · rename_i data hdata
    obtain ⟨rfl, rfl⟩ := Prod.mk.inj (Option.some.inj h)
    refine ⟨m.shape, data, view_of_node? hm, ?_, rfl, rfl, rfl⟩
    unfold RenderNode.shape RenderNode.skeleton
    rw [hdata]
    rfl
  · cases h

/-- A node that is no loop repeats nothing. -/
theorem loopParts?_none (h : e.loopParts? id = none) (hn : e.view.shape id = some n) :
    n.isKeyed = false := by
  obtain ⟨m, hm, rfl⟩ := node?_of_shape hn
  unfold loopParts? at h
  rw [hm, Option.bind_some] at h
  unfold RenderNode.isKeyed RenderNode.shape RenderNode.skeleton
  cases hkind : m.kind with
  | loop data =>
    rw [hkind] at h
    cases h
  | _ => rfl

end Engine

namespace Render

open Act

variable {re : Reentry}

/-- Creating a node. -/
theorem alloc_does {kind : RenderKind} (hkind : kind.Unbuilt) (c : Cursor) (flags : NodeFlags) :
    (alloc kind c flags).Does fun v r v' => v.live c.parent = true →
      (∃ err, r = .error err ∧ v' = v) ∨ ∃ id, r = .ok id ∧ View.Allocated c kind id v v' := by
  have hpoll : Act.poll.Does fun v _ v' => v' = v := by
    refine does_bind (T := fun v _ v' => v' = v) (S := fun _ v _ v' => v' = v) ?_ (fun stop => ?_)
      (fun v a v₁ r v' h₁ h₂ => ?_) fun v err v' h => h
    · refine does_step (fun e I h he => h.closed.evaluation.poll he) fun e _ _ _ => ?_
      exact View.ext (Engine.shape_congr rfl) rfl
    · cases stop with
      | true => exact does_throw fun _ => rfl
      | false => exact does_pure fun _ => rfl
    · rw [h₂, h₁]
  refine does_bind hpoll (S := fun _ v r v' => v.live c.parent = true →
      ∃ id, r = .ok id ∧ View.Allocated c kind id v v') (fun _ => ?_) (fun v a v₁ r v' h₁ h₂ => ?_)
    fun v err v' h _ => .inl ⟨err, rfl, h⟩
  · refine does_step (fun e I h he => h.closed.addNode hkind c flags he) fun e hvalid hcalm hlater hp => ?_
    exact ⟨_, rfl, Engine.allocated_addNode hvalid hkind c flags hcalm hlater hp⟩
  · intro hp
    rw [← h₁] at hp ⊢
    exact .inr (h₂ hp)

/-- Creating a node and completing it. -/
theorem alloc_bind_does {α : Type} {kind : RenderKind} (hkind : kind.Unbuilt) (c : Cursor)
    (flags : NodeFlags) {g : NodeId → Act α} (hg : ∀ id, (g id).Does fun v r v' =>
      v.shape id = some (c.leaf kind) → v.Fills id r v') :
    Act.Does (alloc kind c flags >>= g) fun v r v' =>
      v.Admits c → v.Fits c kind → v.Grows c.parent r v' := by
  refine does_bind (alloc_does hkind c flags) hg (fun v id v₁ r v' halloc hfills hc hfits => ?_)
    fun v err v' h hc _ => ?_
  · obtain ⟨err, herr, -⟩ | ⟨id', hid, halloc⟩ := halloc hc.parent
    · cases herr
    · obtain rfl := Except.ok.inj hid
      exact halloc.grows hc hfits (hfills halloc.node)
  · obtain ⟨err', -, rfl⟩ | ⟨id', hid, -⟩ := h hc.parent
    · exact .refl _ _ _
    · cases hid

section

variable (hre : re.Builds)
include hre

/-- What follows an evaluation does not notice it. -/
theorem evaluates_bind {α β : Type} {x : Act α} {f : α → Act β}
    {U : View → Except EngineError β → View → Prop} (hx : x.Evaluates re)
    (hf : ∀ a, (f a).Does U) (herr : ∀ v err, U v (.error err) v) : Act.Does (x >>= f) U :=
  does_bind_evaluation hre.operates hx hf herr

/-- Evaluating completes a node without books. -/
theorem evaluates_fills {α : Type} {x : Act α} (hx : x.Evaluates re) {id : NodeId}
    {n : RenderNode} (hn : n.isKeyed = false) :
    x.Does fun v r v' => v.shape id = some n → v.Fills id r v' := by
  refine (does_evaluation hre.operates hx).mono fun v r v' h hid => ?_
  rw [h]
  refine (View.Grows.refl r id v).fills fun n' hn' => ?_
  rw [hid, Option.some.injEq] at hn'
  rwa [← hn']

/-! ## Elements and texts -/

omit hre in
/-- Entering a frame. -/
theorem enterFrame_does (c : Cursor) (bindings : List (String × Value)) :
    (enterFrame c bindings).Does fun v r v' => v' = v ∧
      ∃ c', r = .ok c' ∧ c'.parent = c.parent ∧ c'.ctx = c.ctx := by
  unfold enterFrame
  split
  · exact does_pure fun v => ⟨rfl, c, rfl, rfl, rfl⟩
  · refine does_bind (T := fun v r v' => v' = v ∧ ∃ frame, r = .ok frame)
      (S := fun frame v r v' => v' = v ∧ r = .ok (c.inFrame frame)) ?_
      (fun frame => does_pure fun v => ⟨rfl, rfl⟩) ?_ ?_
    · refine does_step (fun e I h he => h.closed.evaluation.addFrame _ _ he) fun e _ _ _ => ?_
      exact ⟨View.ext (Engine.shape_congr rfl) rfl, _, rfl⟩
    · rintro v frame v₁ r v' ⟨rfl, -⟩ ⟨rfl, rfl⟩
      exact ⟨rfl, _, rfl, rfl, rfl⟩
    · rintro v err v' ⟨-, frame, h⟩
      cases h

/-- Creating an element. -/
theorem beginElement_does (tag : String) (actions : List AttrAction) (c : Cursor) :
    (beginElement re tag actions c).Does fun v r v' => v.Admits c → v.Grows c.parent r v' ∧
      ∀ p, r = .ok p → p.2.parent = p.1 ∧ p.2.ctx = c.ctx ∧
        ∃ data, View.Allocated c (.element data) p.1 v v' := by
  -- what follows the creation only evaluates
  let T (id : NodeId) (v : View) (r : Except EngineError (NodeId × Cursor)) (v' : View) : Prop :=
    v' = v ∧ ∀ p, r = .ok p → p.1 = id ∧ p.2.parent = id ∧ p.2.ctx = c.ctx
  have hfail (id : NodeId) (v : View) (err : EngineError) : T id v (.error err) v :=
    ⟨rfl, fun _ h => by cases h⟩
  have hrest (id : NodeId) (ns : Namespace) : Act.Does (do
      let injected ← prepareElement re id c actions
      let _ ← refreshElement re id
      runHooks re c.ctx id (actions.filterMap (·.initHook?))
      processNode re c.ctx id
      let inner ← enterFrame { c with parent := id, ns := ns } injected
      return (id, inner)) (T id) := by
    refine evaluates_bind hre (fun I h hen => prepareElement_keeps h.tracking hen id c actions)
      (fun injected => ?_) (hfail id)
    refine evaluates_bind hre (evaluates_refreshElement id) (fun _ => ?_) (hfail id)
    refine evaluates_bind hre (fun I h hen => runHooks_keeps h.tracking hen _ id _) (fun _ => ?_) (hfail id)
    refine evaluates_bind hre (fun I h hen => processNode_keeps h.tracking hen _ id) (fun _ => ?_) (hfail id)
    refine does_bind (enterFrame_does _ _) (S := fun inner v r v' => v' = v ∧ r = .ok (id, inner))
      (fun inner => does_pure fun v => ⟨rfl, rfl⟩) ?_ ?_
    · rintro v inner v₁ r v' ⟨rfl, c', hc', hparent, hctx⟩ ⟨rfl, rfl⟩
      obtain rfl := Except.ok.inj hc'
      refine ⟨rfl, fun p hp => ?_⟩
      obtain rfl := Except.ok.inj hp
      exact ⟨rfl, hparent, hctx⟩
    · rintro v err v' ⟨-, c', h, -⟩
      cases h
  refine does_bind (alloc_does (by exact rfl) c _) (fun id => hrest id _) ?_ ?_
  · rintro v id v₁ r v' halloc ⟨rfl, hr⟩ hc
    obtain ⟨err, herr, -⟩ | ⟨id', hid, halloc⟩ := halloc hc.parent
    · cases herr
    · obtain rfl := Except.ok.inj hid
      have hfills : v'.Fills id r v' := (View.Grows.refl r id v').fills fun n hn => by
        rw [halloc.node, Option.some.injEq] at hn
        rw [← hn]
        rfl
      refine ⟨halloc.grows hc (hc.fits rfl) hfills, fun p hp => ?_⟩
      obtain ⟨hid, hparent, hctx⟩ := hr p hp
      exact ⟨hid ▸ hparent, hctx, _, hid ▸ halloc⟩
  · rintro v err v' h hc
    obtain ⟨err', -, rfl⟩ | ⟨id', hid, -⟩ := h hc.parent
    · exact ⟨.refl _ _ _, fun _ h => by cases h⟩
    · cases hid

/-- Building an element. -/
theorem buildElement_does (tag : String) (actions : List AttrAction) (content : Content)
    (c : Cursor) : (buildElement re tag actions content c).Does fun v r v' =>
      v.Admits c → v.Grows c.parent r v' := by
  unfold buildElement
  split
  · exact does_pure fun v _ => .refl _ _ v
  · let T (p : NodeId × Cursor) (v : View) (r : Except EngineError Unit) (v' : View) : Prop :=
      ∀ data, v.shape p.1 = some (c.leaf (.element data)) → p.2.parent = p.1 → p.2.ctx = c.ctx →
        v.Fills p.1 r v'
    have hnode {id : NodeId} {v : View} {data : ElementData}
        (hid : v.shape id = some (c.leaf (.element data))) :
        ∀ n, v.shape id = some n → n.isKeyed = false := fun n hn => by
      rw [hid, Option.some.injEq] at hn
      rw [← hn]
      rfl
    have hrefl {p : NodeId × Cursor} (v : View) (r : Except EngineError Unit) : T p v r v :=
      fun data hid _ _ => (View.Grows.refl r p.1 v).fills (hnode hid)
    refine does_bind (beginElement_does hre tag actions c) (fun p => ?_)
      (S := T) (fun v p v₁ r v' hbegun hfills hc => ?_) fun v err v' h hc => (h hc).1.of_error
    · obtain ⟨id, inner⟩ := p
      have hfinish := does_evaluation hre.operates (x := finishElement re id)
        fun I h hen => finishElement_keeps h.tracking hen id
      cases content with
      | text source =>
        refine evaluates_bind hre (evaluates_setElementText id source)
          (fun _ => hfinish.mono fun v r v' h => ?_) fun v err => hrefl v _
        rw [h]
        exact hrefl v r
      | body body =>
        refine does_bind (hre.build body inner) (fun _ => hfinish) ?_ ?_
        · rintro v a v₁ r v' hgrows rfl data hid hparent hctx root ht hlive
          have hadmits : v.Admits inner :=
            (View.admits_of_node ht hid rfl inner.frame inner.ns).congr hparent hctx
          have hgrows := hgrows hadmits
          rw [hparent] at hgrows
          exact hgrows.of_ok.fills (hnode hid) root ht hlive
        · rintro v err v' hgrows data hid hparent hctx root ht hlive
          have hadmits : v.Admits inner :=
            (View.admits_of_node ht hid rfl inner.frame inner.ns).congr hparent hctx
          have hgrows := hgrows hadmits
          rw [hparent] at hgrows
          exact hgrows.fills (hnode hid) root ht hlive
    · obtain ⟨hparent, hctx, data, halloc⟩ := (hbegun hc).2 p rfl
      exact halloc.grows hc (hc.fits rfl) (hfills data halloc.node hparent hctx)

/-- Building a text node. -/
theorem buildText_does (source : TextSource) (c : Cursor) :
    (buildText re source c).Does fun v r v' => v.Admits c → v.Grows c.parent r v' := by
  have hleaf {α : Type} {x : NodeId → Act α} (data : TextData) (flags : NodeFlags)
      (hx : ∀ id, (x id).Evaluates re) : Act.Does (alloc (.text data) c flags >>= x)
        fun v r v' => v.Admits c → v.Grows c.parent r v' :=
    (alloc_bind_does (show (RenderKind.text data).Unbuilt from trivial) c flags
      fun id => evaluates_fills hre (hx id) rfl).mono fun v r v' h hc => h hc (hc.fits rfl)
  cases source with
  | literal text =>
    refine evaluates_bind hre (fun I h _ => keeps_step fun _ he => h.tracking.localizeText _ he)
      (fun text => ?_) fun v err _ => .refl _ _ v
    have hdone := hleaf (x := fun id => pure id) ⟨text, none⟩ { reportable := true }
      fun id I _ _ => keeps_pure id
    rw [bind_pure] at hdone
    exact does_discard hdone (fun _ _ _ h hc => (h hc).of_ok) fun _ _ _ h hc => (h hc).of_error
  | dynamic e =>
    exact hleaf ⟨"", some e⟩ { reportable := true } fun id _ h hen =>
      keeps_discard (evaluates_refreshText id _ h hen)

/-! ## Components -/

/-- Building the template of a context. -/
theorem runRoutine_does (ctx : NodeId) (ns : Namespace) :
    (runRoutine re ctx ns).Does fun v r v' => v.shape.IsContext ctx → v.Grows ctx r v' := by
  refine evaluates_bind hre (fun I _ _ => keeps_read _) (fun found => ?_)
    fun v err _ => .refl _ _ v
  cases found with
  | none => exact does_throw fun v _ => .refl _ _ v
  | some data =>
    have hhook := does_evaluation hre.operates (x := callOwnHook re ctx (some ctx) "on_render" [])
      fun I h hen => callOwnHook_keeps h.tracking hen _ _ _ _
    refine does_bind (hre.build _ _) (fun _ => hhook) ?_ ?_
    · rintro v a v₁ r v' hgrows rfl ⟨n, hn, hctx⟩
      exact (hgrows (View.admits_of_context hn hctx none ns)).of_ok
    · rintro v err v' hgrows ⟨n, hn, hctx⟩
      exact hgrows (View.admits_of_context hn hctx none ns)

/-- Setting a new context up. -/
theorem setupComponent_does (id : NodeId) (actions : List AttrAction) (c : Cursor) :
    (setupComponent re id actions c).Does fun v r v' =>
      v.shape.IsContext id → v.Grows id r v' := by
  have hrefl (v : View) (err : EngineError) : v.shape.IsContext id →
      v.Grows id (.error err : Except EngineError Unit) v := fun _ => .refl _ _ v
  have hhooks := does_evaluation hre.operates
    (x := runHooks re c.ctx id (actions.filterMap (·.renderHook?)))
    fun I h hen => runHooks_keeps h.tracking hen _ id _
  refine evaluates_bind hre (fun I _ _ => keeps_read _) (fun owner => ?_) hrefl
  refine evaluates_bind hre (fun I h hen => prepareContext_keeps h.tracking hen trivial owner c actions)
    (fun sources => ?_) hrefl
  refine evaluates_bind hre (fun I h _ => keeps_change fun _ he => ?_) (fun _ => ?_) hrefl
  · exact h.modifyContext (fun _ => rfl) he
  refine evaluates_bind hre (fun I h hen => runHooks_keeps h.tracking hen _ id _) (fun _ => ?_) hrefl
  refine evaluates_bind hre (fun I h hen => processNode_keeps h.tracking hen _ id) (fun _ => ?_) hrefl
  refine does_bind (runRoutine_does hre id c.ns) (fun _ => hhooks) ?_ fun v err v' h => h
  rintro v a v₁ r v' hgrows rfl hctx
  exact (hgrows hctx).of_ok

omit hre in
/-- The context whose variables an instance at a cursor may share is at the parent or above it, and
has variables of its own. -/
theorem scopeOwner_above {e : Engine} {root : NodeId} (ht : e.shape.Tree root) {c : Cursor}
    (hc : e.view.Admits c) :
    (e.scopeOwner c.ctx = c.parent ∨ e.shape.Above (e.scopeOwner c.ctx) c.parent) ∧
      e.shape.IsContext (e.scopeOwner c.ctx) ∧ e.shape.Owns (e.scopeOwner c.ctx) := by
  obtain ⟨n, hn, hctx⟩ := hc.isContext
  obtain ⟨data, hfound, hdata⟩ := Engine.context?_of_view hn hctx
  have hshared : e.scopeOwner c.ctx = data.sharedWith.getD c.ctx := by
    unfold Engine.scopeOwner
    rw [hfound, Option.bind_some]
  rw [hshared]
  cases hs : data.sharedWith with
  | none => exact ⟨hc.ctx, hc.isContext, n, data.skeleton, hn, hdata, hs⟩
  | some s =>
    have hmem : s ∈ n.contexts := n.mem_contexts_of_shared hdata hs
    have howns := ht.owns c.ctx n _ s hn hdata hs
    by_cases hroot : c.ctx = root
    · -- the root refers to itself only, so it shares with itself
      rw [hroot] at hn
      rw [(ht.root n hn).2.2, List.mem_singleton] at hmem
      rw [Option.getD_some, hmem, ← hroot]
      refine ⟨hc.ctx, hc.isContext, ?_⟩
      rw [hroot, ← hmem]
      exact howns
    · obtain ⟨ha, hcontext⟩ := ht.contexts _ n hn hroot s hmem
      refine ⟨.inr ?_, hcontext, howns⟩
      rcases hc.ctx with heq | hctx
      · exact heq ▸ ha
      · exact .trans ha hctx

omit hre in
/-- What a new component instance refers to. -/
theorem fits_newContext {e : Engine} {root : NodeId} (ht : e.shape.Tree root) {c : Cursor}
    (hc : e.view.Admits c) (routine : Routine) (actions : List AttrAction) (slots : SlotContent) :
    e.view.Fits c (.context (newContext e routine actions slots c)) := by
  obtain ⟨habove, hcontext, howns⟩ := scopeOwner_above ht hc
  refine ⟨fun x hx => ?_, fun data s hdata hs => ?_⟩
  · unfold RenderNode.contexts at hx
    rcases List.mem_append.1 hx with hx | hx
    · rcases List.mem_cons.1 hx with rfl | hx
      · exact ⟨hc.ctx, hc.isContext⟩
      · obtain ⟨data, hdata, hs⟩ := Option.bind_eq_some_iff.1 (Option.mem_toList.1 hx)
        obtain rfl := Option.some.inj hdata
        change (if actions.any (·.sharesScope) then some (e.scopeOwner c.ctx) else none) = some x at hs
        split at hs
        · obtain rfl := Option.some.inj hs
          exact ⟨habove, hcontext⟩
        · cases hs
    · obtain ⟨slot, hslot, rfl⟩ := Option.map_eq_some_iff.1 (Option.mem_toList.1 hx)
      obtain ⟨data, hdata, hslot⟩ := Option.bind_eq_some_iff.1 hslot
      obtain rfl := Option.some.inj hdata
      obtain rfl := Option.some.inj hslot
      exact ⟨hc.ctx, hc.isContext⟩
  · obtain rfl := Option.some.inj hdata
    change (if actions.any (·.sharesScope) then some (e.scopeOwner c.ctx) else none) = some s at hs
    split at hs
    · obtain rfl := Option.some.inj hs
      exact howns
    · cases hs

/-- A node was taken away with all that is under it. -/
def Removed (id : NodeId) (v v' : View) : Prop :=
  ∀ root, v.shape.Tree root → v.live id = true → v'.shape = v.shape.uproot id ∧ v.Later v'

omit hre in
/-- Taking a node away, after something that does not touch the shape of the tree. -/
theorem removeNode_does (id : NodeId) (f : Engine → Engine)
    (hf : ∀ I, Engine.EvaluationStable I → ∀ e, I e → I (f e)) (hshape : ∀ e, (f e).shape = e.shape) :
    (change fun e => (f e).removeNode id).Does fun v _ v' => Removed id v v' := by
  refine does_change (fun e I h he => h.closed.removeNode id (hf I h.evaluation e he))
    fun e hvalid hlater root ht hlive => ⟨?_, hlater⟩
  have hvalid' : (f e).nodes.Valid := hf _ Engine.valid_stable.evaluation e hvalid
  have hlive' : (f e).contains id = true := by
    rw [Engine.contains_iff_shape, hshape]
    exact View.live_iff.1 hlive
  have ht' : (f e).shape.Tree root := by
    rw [hshape]
    exact ht
  change ((f e).removeNode id).shape = e.shape.uproot id
  rw [Engine.shape_removeNode hvalid' ht' hlive', hshape]

/-- A component instance is set up, or what was built for it is taken away again. -/
theorem setupOrRemove_does (id : NodeId) (actions : List AttrAction) (c : Cursor) :
    Act.Does (tryCatch (setupComponent re id actions c) fun err => do
      match err with
      | .initFailed _ => change fun e => (e.diagnose c.ctx none err.message none).removeNode id
      | _ =>
        change (·.removeNode id)
        throw err) fun v r v' => v.shape.IsContext id → v.Grows id r v' ∨
            ∃ v₁ err, v.Grows id (.error err : Except EngineError Unit) v₁ ∧ Removed id v₁ v' := by
  have hthrow (err : EngineError) : Act.Does (do
      change (·.removeNode id)
      throw err : Act Unit) fun v _ v' => Removed id v v' := by
    refine does_bind (removeNode_does id (fun e => e) (fun I _ e he => he) fun _ => rfl)
      (S := fun _ v _ v' => v' = v) (fun _ => does_throw fun _ => rfl) ?_ fun v err v' h => h
    rintro v a v₁ r v' h rfl
    exact h
  refine does_tryCatch (setupComponent_does hre id actions c) (fun err => ?_)
    (fun v a v' h hctx => .inl (h hctx)) (S := fun err v r v' => Removed id v v')
    fun v err v₁ r v' h hremoved hctx => .inr ⟨v₁, err, h hctx, hremoved⟩
  cases err with
  | initFailed context =>
    exact removeNode_does id (fun e => e.diagnose c.ctx none (EngineError.initFailed context).message none)
      (fun I h e he => h.tracking.diagnose _ _ _ _ he) fun _ => rfl
  | _ => exact hthrow _

omit hre in
/-- What was built for a new component instance is under it, so that nothing of it is left when the
instance is taken away. -/
theorem removed_shape {id root : NodeId} {data : ContextData} {c : Cursor} {v v₁ v₂ v' : View}
    {r : Except EngineError Unit} (ht : v.shape.Tree root) (hc : v.Admits c)
    (halloc : View.Allocated c (.context data) id v v₁) (ht₁ : v₁.shape.Tree root)
    (hgrows : v₁.Grows id r v₂) (hremoved : Removed id v₂ v') :
    v'.shape = v.shape ∧ v.Later v' := by
  have hlive : v₁.live id = true := View.live_iff.2 ⟨_, halloc.node⟩
  have hg₂ := (hgrows root ht₁).1
  obtain ⟨hshape, hlater⟩ := hremoved root hg₂.tree (hg₂.changed.live hlive)
  have hnew : v.shape.Extends v₁.shape c.parent [id] := by
    rw [halloc.shape_eq]
    exact .graft halloc.fresh rfl
  have hext : v.shape.Extends v₂.shape c.parent [id] :=
    hnew.inside hg₂.changed.confined halloc.fresh (.single ⟨_, halloc.node, rfl⟩) ht ht₁
  have ht' : v'.shape.Tree root := hshape ▸ hg₂.tree.uproot
  refine ⟨?_, halloc.later.trans (hg₂.later.trans hlater)⟩
  rw [hshape] at ht' ⊢
  exact (hext.uproot ht halloc.fresh).eq_of_nil ht ht' (View.live_iff.1 hc.parent)

omit hre in
/-- A component instance that is taken away again leaves the tree as it was. -/
theorem removed_grows {id root : NodeId} {data : ContextData} {c : Cursor} {v v₁ v₂ v' : View}
    {r r' : Except EngineError Unit} (ht : v.shape.Tree root) (hc : v.Admits c)
    (halloc : View.Allocated c (.context data) id v v₁) (ht₁ : v₁.shape.Tree root)
    (hgrows : v₁.Grows id r v₂) (hremoved : Removed id v₂ v') : v.Grows c.parent r' v' := by
  obtain ⟨hsame, hlater⟩ := removed_shape ht hc halloc ht₁ hgrows hremoved
  intro root' ht₀
  refine ⟨⟨hlater, hsame ▸ ht₀, [], hsame ▸ .refl _ _⟩, fun busy a _ _ hsound => ?_⟩
  exact hsound.later hlater ht₀ hsame

/-- Building an instance of a component. -/
theorem buildComponent_does (name : String) (actions : List AttrAction) (slots : SlotContent)
    (c : Cursor) : (buildComponent re name actions slots c).Does fun v r v' =>
      v.Admits c → v.Grows c.parent r v' := by
  have hrefl (v : View) (err : EngineError) : v.Admits c →
      v.Grows c.parent (.error err : Except EngineError Unit) v := fun _ => .refl _ _ v
  unfold buildComponent
  split
  · exact does_pure fun v _ => .refl _ _ v
  refine evaluates_bind hre (fun I h _ => resolveComponent_keeps h.tracking name) (fun found => ?_) hrefl
  cases found with
  | none =>
    refine evaluates_bind hre (fun I _ _ => keeps_read _) (fun reported => ?_) hrefl
    have hdone : Act.Does (change (·.diagnose c.ctx none (EngineError.componentNotFound name).message
        none)) fun v r v' => v.Admits c → v.Grows c.parent r v' := by
      refine (does_evaluation hre.operates fun I h _ =>
        keeps_change fun _ he => h.tracking.diagnose _ _ _ _ he).mono fun v r v' h _ => ?_
      rw [h]
      exact .refl _ _ v
    cases reported with
    | true => exact hdone
    | false => exact does_pure fun v _ => .refl _ _ v
  | some routine =>
    refine does_bind_read fun e => ?_
    let data := newContext e routine actions slots c
    refine does_bind (alloc_does (by exact rfl) c {}) (fun id => setupOrRemove_does hre id actions c) ?_ ?_
    · rintro v id v₁ r v' halloc hrest hview hc root ht
      obtain ⟨err, herr, -⟩ | ⟨id', hid, halloc⟩ := halloc hc.parent
      · cases herr
      obtain rfl := Except.ok.inj hid
      have hfits : v.Fits c (.context data) := by
        rw [hview] at ht hc ⊢
        exact fits_newContext ht hc routine actions slots
      have hkeyed (n : RenderNode) (hn : v₁.shape id = some n) : n.isKeyed = false := by
        rw [halloc.node, Option.some.injEq] at hn
        rw [← hn]
        rfl
      obtain hgrows | ⟨v₂, err, hgrows, hremoved⟩ := hrest ⟨_, halloc.node, rfl⟩
      · exact halloc.grows hc hfits (hgrows.fills hkeyed) root ht
      · exact removed_grows ht hc halloc (halloc.tree ht hc hfits) hgrows hremoved root ht
    · rintro v err v' h - hc
      obtain ⟨err', -, rfl⟩ | ⟨id', hid, -⟩ := h hc.parent
      · exact .refl _ _ _
      · cases hid

/-- Building the content of a slot. -/
theorem buildSlot_does (name : Option String) (fallback : Option Body) (c : Cursor) :
    (buildSlot re name fallback c).Does fun v r v' => v.Admits c → v.Grows c.parent r v' := by
  refine does_bind_read fun e => ?_
  dsimp only
  split
  · rename_i body inner hcontent
    obtain ⟨slot, hslot, hbody⟩ := Option.bind_eq_some_iff.1 hcontent
    obtain ⟨body', -, hinner⟩ := Option.map_eq_some_iff.1 hbody
    obtain ⟨rfl, rfl⟩ := Prod.mk.inj hinner
    obtain ⟨data, hdata, hslot⟩ := Option.bind_eq_some_iff.1 hslot
    obtain ⟨n, hn, hdata⟩ := Engine.view_of_context? hdata
    refine (hre.build _ _).mono fun v r v' h hview hc root ht => ?_
    rw [hview] at hc ht h ⊢
    exact h (hc.caller ht hn hdata hslot) root ht
  · cases fallback with
    | none => exact does_pure fun v _ _ => .refl _ _ v
    | some body => exact (hre.build body c).mono fun v r v' h _ hc => h hc

/-! ## Conditions -/

omit hre in
/-- Changing what a node is, so that it stays the same for the view. -/
theorem modifyKind_does_of_same {e : Engine} {id : NodeId} {n : RenderNode}
    (hn : e.node? id = some n) {f : RenderKind → RenderKind}
    (hf : ∀ kind, kind.skeleton = n.kind.skeleton → (f kind).skeleton = n.kind.skeleton) :
    (change (·.modifyKind id f)).Does fun v _ v' => v = e.view → v' = v := by
  refine does_change (fun e₁ I h he => h.modifyKind id f he) fun e₁ _ _ hview => ?_
  refine View.ext ?_ (funext fun x => propext (Arena.spent_modify x id _))
  refine Engine.shape_modifyNode_of_same fun m hm => ?_
  have hshape : m.shape = n.shape := by
    have heq := congrFun (congrArg View.shape hview) id
    change e₁.shape id = e.shape id at heq
    rw [Engine.shape_of_node? hm, Engine.shape_of_node? hn, Option.some.injEq] at heq
    exact heq
  have hkind : m.kind.skeleton = n.kind.skeleton := congrArg RenderNode.kind hshape
  unfold RenderNode.shape RenderNode.skeleton
  simp only [hkind, hf m.kind hkind]

/-- Building a branch. -/
theorem buildBranch_does (id : NodeId) (selected : Option Nat) :
    (buildBranch re id selected).Does fun v r v' => v.Grows id r v' := by
  refine does_bind_read fun e => ?_
  split
  · exact does_pure fun v _ => .refl _ _ v
  rename_i n hn
  split
  · rename_i data hdata
    have hsame := modifyKind_does_of_same hn
      (f := fun _ => .condition { data with selected := selected }) fun _ _ => by
        rw [hdata]
        rfl
    have hview := Engine.view_of_node? hn
    have hctx : n.shape.isContext = false := by
      unfold RenderNode.isContext RenderNode.shape RenderNode.skeleton
      rw [hdata]
      rfl
    refine does_bind hsame (S := fun _ v r v' => v = e.view → v.Grows id r v') (fun _ => ?_)
      (fun v a v₁ r v' h₁ h₂ hv => ?_) fun v err v' h hv => ?_
    · split
      · exact does_pure fun v _ => .refl _ _ v
      · refine evaluates_bind hre (fun I _ _ => keeps_read _) (fun ns => ?_) fun v err _ =>
          .refl _ _ v
        refine (hre.build _ _).mono fun v r v' h hv root ht => ?_
        have hn' : v.shape id = some n.shape := hv ▸ hview
        exact h (View.admits_of_node ht hn' hctx n.frame ns) root ht
    · obtain rfl := h₁ hv
      exact h₂ hv
    · rw [h hv]
      exact .refl _ _ v
  · exact does_pure fun v _ => .refl _ _ v

/-- Building a condition. -/
theorem buildChoice_does (branches : List Branch) (reactive : Bool) (c : Cursor) :
    (buildChoice re branches reactive c).Does fun v r v' => v.Admits c → v.Grows c.parent r v' := by
  let data : ConditionData := { branches := branches, reactive := reactive }
  refine (alloc_bind_does (show (RenderKind.condition data).Unbuilt from trivial) c
    { reportable := reactive } fun id => ?_).mono fun v r v' h hc => h hc (hc.fits rfl)
  have hrefl (v : View) (err : EngineError) : v.Grows id (.error err : Except EngineError Unit) v :=
    .refl _ _ v
  refine (evaluates_bind hre (fun I h hen => selectBranch_keeps h.tracking hen trivial)
    (fun selected => buildBranch_does hre id selected) hrefl).mono fun v r v' h hid => ?_
  refine h.fills fun n hn => ?_
  rw [hid, Option.some.injEq] at hn
  rw [← hn]
  rfl

/-! ## Loops -/

/-- Building an instance of a loop. -/
theorem buildInstance_does (spec : LoopSpec) (c : Cursor) (item : Value) (index : Nat)
    (identity : Option Value) : (buildInstance re spec c item index identity).Does fun v r v' =>
      v.Admits c → v.Grows c.parent r v' ∧ ∀ built, r = .ok built → ∀ root n,
        v.shape.Tree root → v.shape c.parent = some n →
          v'.shape c.parent = some { n with children := n.children ++ built.nodes } := by
  have hfail (v : View) (err : EngineError) : v.Admits c →
      v.Grows c.parent (.error err : Except EngineError Instance) v ∧
        ∀ built, (.error err : Except EngineError Instance) = .ok built → ∀ root n,
          v.shape.Tree root → v.shape c.parent = some n →
            v.shape c.parent = some { n with children := n.children ++ built.nodes } :=
    fun _ => ⟨.refl _ _ v, fun _ h => by cases h⟩
  refine evaluates_bind hre (fun I h _ => keeps_poll fun _ he => h.tracking.poll he) (fun _ => ?_) hfail
  refine evaluates_bind hre (fun I h _ => keeps_step fun _ he => h.tracking.addFrame _ _ he)
    (fun frame => ?_) hfail
  refine does_bind_read fun e => ?_
  refine does_bind (hre.build spec.body (c.inFrame frame)) (S := fun _ v r v' => v' = v ∧
      ∃ built, r = .ok built ∧ ∀ n, v.shape c.parent = some n →
        built.nodes = n.children.drop (e.childrenOf c.parent).length) (fun _ => ?_) ?_ ?_
  · refine does_bind_read fun e₂ => does_pure fun v hv => ⟨rfl, _, rfl, fun n hn => ?_⟩
    rw [hv] at hn
    rw [Engine.childrenOf_view hn]
  · rintro v a v₁ r v' hgrows ⟨rfl, built, rfl, hnodes⟩ hview hc
    have hgrows : v.Grows c.parent (.ok a) v' := hgrows (hc.congr rfl rfl)
    refine ⟨hgrows.of_ok, fun built' hbuilt root n ht hn => ?_⟩
    obtain rfl := Except.ok.inj hbuilt
    obtain ⟨new, hnew⟩ := (hgrows root ht).1.extends_children
    have hn' := hnew.old c.parent n hn
    rw [if_pos rfl] at hn'
    rw [hview] at hn
    rw [hn', hnodes _ hn', Engine.childrenOf_view hn, List.drop_left]
  · rintro v err v' hgrows - hc
    exact ⟨(hgrows (hc.congr rfl rfl)).of_error, fun _ h => by cases h⟩

/-- Building the instances of a loop with identities. -/
theorem buildKeyed_does (spec : LoopSpec) (c : Cursor) (items : List Value) :
    ∀ instances, (buildKeyed re spec c items instances).Does fun v r v' =>
      v.Admits c → v.Grows c.parent r v' ∧ ∀ all, r = .ok all → ∀ root n,
        v.shape.Tree root → v.shape c.parent = some n → instances.Distinct →
          all.Distinct ∧ ∃ new, all.nodes = instances.nodes ++ new ∧
            v'.shape c.parent = some { n with children := n.children ++ new } := by
  induction items with
  | nil =>
    refine fun instances => does_pure fun v _ => ⟨.refl _ _ v, fun all h root n _ hn hd => ?_⟩
    obtain rfl := Except.ok.inj h
    exact ⟨hd, [], (List.append_nil _).symm, by rw [List.append_nil, hn]⟩
  | cons item items ih =>
    intro instances
    refine evaluates_bind hre (fun I h hen => loopKey_keeps h.tracking hen spec c item) (fun p => ?_)
      fun v err _ => ⟨.refl _ _ v, fun _ h => by cases h⟩
    obtain ⟨key, identity⟩ := p
    dsimp only
    split
    · exact ih instances
    rename_i hkey
    have hkey : instances.contains key = false := by simpa using hkey
    refine does_bind (buildInstance_does hre spec c item _ _) (fun built => ih _) ?_ ?_
    · intro v built v₁ r v' hbuilt hrest hc
      obtain ⟨hgrows, hnodes⟩ := hbuilt hc
      have hrest' {root : NodeId} (ht : v.shape.Tree root) := hrest (hc.grown (hgrows root ht).1)
      refine ⟨fun root ht => ?_, fun all hall root n ht hn hd => ?_⟩
      · exact hgrows.trans (hrest' ht).1 hc.parent root ht
      · have hn₁ := hnodes built rfl root n ht hn
        obtain ⟨hd', new, hnew, hn'⟩ := (hrest' ht).2 all hall root _ (hgrows root ht).1.tree hn₁
          (hd.insert key built)
        refine ⟨hd', built.nodes ++ new, ?_, ?_⟩
        · rw [hnew, ← List.append_assoc]
          congr 1
          unfold OrderedMap.nodes OrderedMap.values
          rw [OrderedMap.entries_insert_of_not_contains hkey, List.map_append, List.flatMap_append]
          simp
        · rw [hn', List.append_assoc]
    · intro v err v' h hc
      exact ⟨(h hc).1.of_error, fun _ h => by cases h⟩

/-- Building the instances of a loop without identities. -/
theorem buildPlain_does (spec : LoopSpec) (c : Cursor) (items : List Value) :
    ∀ index, (buildPlain re spec c index items).Does fun v r v' =>
      v.Admits c → v.Grows c.parent r v' := by
  induction items with
  | nil => exact fun _ => does_pure fun v _ => .refl _ _ v
  | cons item items ih =>
    intro index
    have hbuilt : Act.Does (discard (buildInstance re spec c item index none))
        fun v r v' => v.Admits c → v.Grows c.parent r v' :=
      does_discard (buildInstance_does hre spec c item index none)
        (fun v a v' h hc => (h hc).1.of_ok) fun v err v' h hc => (h hc).1.of_error
    refine does_bind hbuilt (fun _ => ih (index + 1)) ?_ fun v err v' h => h
    intro v a v₁ r v' h₁ h₂ hc root ht
    exact (h₁ hc).trans (h₂ (hc.grown (h₁ hc root ht).1)) hc.parent root ht

omit hre in
/-- Changing what a node is. -/
theorem modifyKind_does (id : NodeId) {f : RenderKind → RenderKind}
    (hf : ∀ kind, (f kind).skeleton = f kind.skeleton) :
    (change (·.modifyKind id f)).Does fun v r v' => (∃ a, r = .ok a) ∧ v.Later v' ∧
      v'.shape = v.shape.amend id fun n => { n with kind := f n.kind } := by
  refine does_change (fun e I h he => h.modifyKind id f he) fun e _ hlater => ⟨⟨_, rfl⟩, hlater, ?_⟩
  refine Engine.shape_modifyNode fun n _ => ?_
  unfold RenderNode.shape RenderNode.skeleton
  simp only [hf]

/-- What a loop keeps when it is finished: what it was built from, and whether it shows its empty
case. -/
def keepState (spec : LoopSpec) (state : LoopState) : RenderKind → RenderKind
  | .loop data =>
    .loop { data with state := state, showingEmpty := state.isEmpty && spec.empty.isSome }
  | other => other

omit hre in
/-- A loop is finished when it keeps what it was built from, after the empty case was built if there
is one to be built. -/
theorem fills_keepState {id : NodeId} {spec : LoopSpec} {state : LoopState} {v v₁ v' : View}
    {r : Except EngineError Unit} {n : RenderNode} {data : LoopData} {a : Unit}
    (hn : v.shape id = some n) (hdata : n.kind = .loop data) (hgrows : v.Grows id (.ok a) v₁)
    (hlater : v₁.Later v')
    (hshape : v'.shape = v₁.shape.amend id fun n => { n with kind := keepState spec state n.kind })
    (hbooks : data.isKeyed = true → ∃ instances, state = .keyed instances ∧
      if state.isEmpty && spec.empty.isSome then instances = .empty
      else v.Lists instances n.children ∧ v₁ = v) : v.Fills id r v' := by
  intro root ht
  obtain ⟨new, hnew⟩ := (hgrows root ht).1.extends_children
  refine hgrows.trans_fills (fun root ht₁ hlive => ?_) root ht
  have hkind {m : RenderNode} (hm : v₁.shape id = some m) : Forest.Mild m
      { m with kind := keepState spec state m.kind } := by
    refine ⟨rfl, rfl, ?_, .refl _⟩
    cases hm : m.kind <;> rfl
  have hchanged := View.Changed.amend ht₁ (fun m hm => hkind hm) hlater hshape
  refine ⟨hchanged, fun busy b _ hsound => ?_⟩
  refine hsound.amend hlater hchanged.tree hshape ?_ fun n' hn' _ => ?_
  · exact fun x hx hne => (List.mem_cons.1 hx).resolve_left hne
  · -- the loop itself: its books are those that were given
    intro data' hdata' hkeyed
    have hold := hn'
    rw [hshape, Forest.amend_self] at hold
    obtain ⟨m, hm, rfl⟩ := Option.map_eq_some_iff.1 hold
    have hmkind : m.kind = n.kind := by
      rw [hnew.old id n hn, Option.some.injEq] at hm
      rw [← hm]
    obtain rfl : { data with
        state := state, showingEmpty := state.isEmpty && spec.empty.isSome } = data' := by
      have hf : keepState spec state m.kind = .loop data' := hdata'
      rw [hmkind, hdata] at hf
      exact RenderKind.loop.inj hf
    obtain ⟨instances, hstate, hlists⟩ := hbooks hkeyed
    refine ⟨instances, hstate, ?_⟩
    dsimp only
    split
    · rename_i hempty
      rwa [if_pos hempty] at hlists
    · rename_i hempty
      rw [if_neg hempty] at hlists
      obtain ⟨hlists, rfl⟩ := hlists
      obtain rfl : m = n := Option.some.inj (hm.symm.trans hn)
      exact hlists.later hlater fun c hc => View.live_of_child hchanged.tree hn' hc

/-- Finishing a loop whose books are right. -/
theorem finishLoop_does (id : NodeId) (spec : LoopSpec) (c : Cursor) (state : LoopState) :
    (finishLoop re id spec c state).Does fun v r v' => ∀ n data, v.shape id = some n →
      n.kind = .loop data → data.spec = spec → v.Admits c → c.parent = id →
      (data.isKeyed = true → ∃ instances, state = .keyed instances ∧
        v.Lists instances n.children) → v.Fills id r v' := by
  have hset := modifyKind_does id (f := keepState spec state) fun kind => by cases kind <;> rfl
  unfold finishLoop
  split
  · rename_i hempty
    split
    · rename_i body hbody
      refine does_bind (hre.build body c) (fun _ => hset) ?_ ?_
      · rintro v a v₁ r v' hgrows ⟨-, hlater, hshape⟩ n data hn hdata hspec hc rfl hbooks
        refine fills_keepState hn hdata (hgrows hc) hlater hshape fun hkeyed => ?_
        obtain ⟨instances, rfl, -⟩ := hbooks hkeyed
        refine ⟨instances, rfl, ?_⟩
        rw [hempty, hbody]
        obtain ⟨_ | _⟩ := instances
        · rfl
        · cases hempty
      · rintro v err v' hgrows n data hn hdata hspec hc rfl hbooks
        exact (hgrows hc).fills_error
    · rename_i hbody
      refine hset.mono ?_
      rintro v r v' ⟨-, hlater, hshape⟩ n data hn hdata hspec hc rfl hbooks
      have hgrows : v.Grows c.parent (.ok ()) v := .refl _ _ v
      refine fills_keepState hn hdata hgrows hlater hshape fun hkeyed => ?_
      obtain ⟨instances, hstate, hlists⟩ := hbooks hkeyed
      refine ⟨instances, hstate, ?_⟩
      rw [hbody]
      simpa using hlists
  · rename_i hempty
    refine hset.mono ?_
    rintro v r v' ⟨-, hlater, hshape⟩ n data hn hdata hspec hc rfl hbooks
    have hgrows : v.Grows c.parent (.ok ()) v := .refl _ _ v
    refine fills_keepState hn hdata hgrows hlater hshape fun hkeyed => ?_
    obtain ⟨instances, hstate, hlists⟩ := hbooks hkeyed
    refine ⟨instances, hstate, ?_⟩
    rw [if_neg (by simp [hempty])]
    exact ⟨hlists, rfl⟩

/-- Building all instances of a loop without children. -/
theorem fillLoop_does (id : NodeId) (items : List Value) :
    (fillLoop re id items).Does fun v r v' =>
      (∀ n, v.shape id = some n → n.children = []) → v.Fills id r v' := by
  refine does_bind_read fun e => ?_
  cases hparts : e.loopParts? id with
  | none =>
    refine does_pure fun v hview _ => (View.Grows.refl _ id v).fills fun n hn => ?_
    exact Engine.loopParts?_none hparts (hview ▸ hn)
  | some parts =>
    obtain ⟨spec, c⟩ := parts
    obtain ⟨n, data, hn, hdata, rfl, rfl, hctx⟩ := Engine.loopParts?_some hparts
    have hadmits {v : View} {root : NodeId} (hview : v = e.view) (ht : v.shape.Tree root) :
        v.Admits c := by
      have hnode : n.isContext = false := by
        unfold RenderNode.isContext
        rw [hdata]
        rfl
      have hn' : v.shape c.parent = some n := hview ▸ hn
      exact (View.admits_of_node ht hn' hnode c.frame c.ns).congr rfl hctx
    dsimp only
    split
    · refine does_bind (buildKeyed_does hre data.spec c items .empty)
        (fun all => finishLoop_does hre c.parent data.spec c (.keyed all)) ?_ ?_
      · intro v all v₁ r v' hbuilt hfinish hview hleaf root ht
        have hn' : v.shape c.parent = some n := hview ▸ hn
        obtain ⟨hgrows, hall⟩ := hbuilt (hadmits hview ht)
        obtain ⟨hdistinct, new, hnew, hn₁⟩ := hall all rfl root n ht hn' List.nodup_nil
        have hnew : all.nodes = new := hnew
        have hg := (hgrows root ht).1
        have hlive (id : NodeId) (hid : id ∈ all.nodes) : v₁.live id = true :=
          View.live_of_child hg.tree hn₁ (List.mem_append_right _ (hnew ▸ hid))
        refine hgrows.trans_fills (hfinish _ data hn₁ hdata rfl ((hadmits hview ht).grown hg) rfl
          fun _ => ⟨all, rfl, hdistinct, ?_, fun id hid => .inl (hlive id hid)⟩) root ht
        rw [List.filter_eq_self.2 hlive, hnew, hleaf n hn']
        rfl
      · intro v err v' h hview _ root ht
        exact (h (hadmits hview ht)).1.fills_error root ht
    · rename_i hplain
      refine does_bind (buildPlain_does hre data.spec c items 0)
        (fun _ => finishLoop_does hre c.parent data.spec c (.plain items)) ?_ ?_
      · intro v a v₁ r v' hgrows hfinish hview _ root ht
        have hn' : v.shape c.parent = some n := hview ▸ hn
        have hgrows := hgrows (hadmits hview ht)
        have hg := (hgrows root ht).1
        obtain ⟨n₁, hn₁, hkind, -⟩ := hg.node hn'
        exact hgrows.trans_fills (hfinish n₁ data hn₁ (hkind.trans hdata) rfl
          ((hadmits hview ht).grown hg) rfl fun hkeyed => absurd hkeyed hplain) root ht
      · intro v err v' h hview _ root ht
        exact (h (hadmits hview ht)).fills_error root ht

/-- Building a loop. -/
theorem buildLoop_does (spec : LoopSpec) (c : Cursor) :
    (buildLoop re spec c).Does fun v r v' => v.Admits c → v.Grows c.parent r v' := by
  refine (alloc_bind_does (show (RenderKind.loop { spec := spec }).Unbuilt from trivial) c
    { reportable := spec.iterable.reactive } fun id => ?_).mono
      fun v r v' h hc => h hc (hc.fits rfl)
  have hnew (v : View) : v.shape id = some (c.leaf (.loop { spec := spec })) →
      ∀ n, v.shape id = some n → n.children = [] := fun hid n hn => by
    rw [hid, Option.some.injEq] at hn
    rw [← hn]
    rfl
  refine evaluates_bind hre (fun I h hen => loopItems_keeps h.tracking hen trivial) (fun items => ?_) ?_
  · exact (fillLoop_does hre id items).mono fun v r v' h hid => h (hnew v hid)
  · exact fun v err _ => (View.Grows.refl (.error err : Except EngineError Unit) id v).fills_error

/-! ## Sets, carriers and signals -/

/-- Building what a set binds its value for. -/
theorem fillSet_does (id : NodeId) (value : Value) :
    (fillSet re id value).Does fun v r v' => v.Grows id r v' := by
  refine does_bind_read fun e => ?_
  split
  · exact does_pure fun v _ => .refl _ _ v
  rename_i n hn
  split
  · rename_i data hdata
    have hsame := modifyKind_does_of_same hn (f := fun _ => .set { data with current := value })
      fun _ _ => by
        rw [hdata]
        rfl
    have hctx : n.shape.isContext = false := by
      unfold RenderNode.isContext RenderNode.shape RenderNode.skeleton
      rw [hdata]
      rfl
    refine does_bind hsame (S := fun _ v r v' => v = e.view → v.Grows id r v') (fun _ => ?_)
      (fun v a v₁ r v' h₁ h₂ hv => ?_) fun v err v' h hv => ?_
    · refine evaluates_bind hre (fun I h _ => keeps_step fun _ he => h.tracking.addFrame _ _ he)
        (fun frame => ?_) fun v err _ => .refl _ _ v
      refine evaluates_bind hre (fun I _ _ => keeps_read _) (fun ns => ?_) fun v err _ =>
        .refl _ _ v
      refine (hre.build _ _).mono fun v r v' h hv root ht => ?_
      have hn' : v.shape id = some n.shape := hv ▸ Engine.view_of_node? hn
      exact h (View.admits_of_node ht hn' hctx (some frame) ns) root ht
    · obtain rfl := h₁ hv
      exact h₂ hv
    · rw [h hv]
      exact .refl _ _ v
  · exact does_pure fun v _ => .refl _ _ v

/-- Building a set. -/
theorem buildSet_does (name : String) (value : DynamicExpr) (body : Body) (c : Cursor) :
    (buildSet re name value body c).Does fun v r v' => v.Admits c → v.Grows c.parent r v' := by
  let data : SetData := { name := name, value := value, body := body }
  refine (alloc_bind_does (show (RenderKind.set data).Unbuilt from trivial) c {}
    fun id => ?_).mono fun v r v' h hc => h hc (hc.fits rfl)
  refine (evaluates_bind hre (fun I h hen => setValue_keeps h.tracking hen trivial)
    (fun v => fillSet_does hre id v) fun v err => .refl _ id v).mono fun v r v' h hid => ?_
  refine h.fills fun n hn => ?_
  rw [hid, Option.some.injEq] at hn
  rw [← hn]
  rfl

omit hre in
/-- Building a node without content. -/
theorem buildLeaf_does {kind : RenderKind} (hnew : kind.Unbuilt) (c : Cursor) (flags : NodeFlags)
    (hkind : kind.skeleton.context? = none) (hkeyed : (c.leaf kind).isKeyed = false) :
    Act.Does (discard (alloc kind c flags)) fun v r v' => v.Admits c → v.Grows c.parent r v' := by
  have halloc := alloc_bind_does hnew c flags (g := fun id => pure id) fun id =>
    does_pure fun v hid => (View.Grows.refl (.ok id) id v).fills fun n hn => by
      rw [hid, Option.some.injEq] at hn
      rwa [← hn]
  rw [bind_pure] at halloc
  exact does_discard halloc (fun _ _ _ h hc => (h hc (hc.fits hkind)).of_ok) fun _ _ _ h hc =>
    (h hc (hc.fits hkind)).of_error

/-- Building a carrier. -/
theorem buildCarrier_does (spec : CarrierSpec) (c : Cursor) :
    (buildCarrier re spec c).Does fun v r v' => v.Admits c → v.Grows c.parent r v' := by
  have hrefl (v : View) (err : EngineError) : v.Admits c →
      v.Grows c.parent (.error err : Except EngineError Unit) v := fun _ => .refl _ _ v
  refine evaluates_bind hre (fun I h hen => carrierTexts_keeps h.tracking hen c _) (fun texts => ?_) hrefl
  refine evaluates_bind hre (fun I _ _ => keeps_read _) (fun context => ?_) hrefl
  have hrest (text : Option String) : Act.Does (do
      let restyle := spec.kind ≠ .script && !spec.everywhere
      if restyle then
        Act.change (·.modifyContext c.ctx fun data => { data with restyle := true })
      discard (alloc (.carrier ⟨spec.kind, carrierAttrs spec context texts, text, restyle⟩) c
        { reportable := true })) fun v r v' => v.Admits c → v.Grows c.parent r v' := by
    have hnew : (RenderKind.carrier ⟨spec.kind, carrierAttrs spec context texts, text,
      spec.kind ≠ .script && !spec.everywhere⟩).Unbuilt := distinct_carrierAttrs spec context texts
    have hleaf := buildLeaf_does hnew c { reportable := true } rfl rfl
    dsimp only
    split
    · refine evaluates_bind hre (fun I h _ => keeps_change fun _ he => ?_) (fun _ => hleaf) hrefl
      exact h.modifyContext (fun _ => rfl) he
    · exact hleaf
  split
  · exact evaluates_bind hre (fun I _ _ => keeps_pure _) hrest hrefl
  · exact evaluates_bind hre (fun I _ _ => keeps_pure _) hrest hrefl
  · refine evaluates_bind hre
      (fun I h hen => evaluateAt_keeps h.tracking hen (fun _ _ => trivial) _) (fun value => ?_) hrefl
    exact evaluates_bind hre (fun I _ _ => keeps_pure _) hrest hrefl

/-- Building a signal. -/
theorem buildSignal_does (key action : String) (c : Cursor) :
    (buildSignal key action c).Does fun v r v' => v.Admits c → v.Grows c.parent r v' :=
  (alloc_bind_does (show (RenderKind.signal ⟨key, action⟩).Unbuilt from trivial) c {}
    fun _ => evaluates_fills hre (fun _ h _ => keeps_discard (keeps_step fun _ he =>
      h.tracking.lookupAt (fun _ _ => trivial) key he)) rfl).mono
        fun _ _ _ h hc => h hc (hc.fits rfl)

/-! ## Bodies -/

omit hre in
/-- A step that leaves the cursor. -/
theorem step_does {x : Act Unit} {c : Cursor}
    (hx : x.Does fun v r v' => v.Admits c → v.Grows c.parent r v') :
    Act.Does (do x; return c) fun v r v' => v.Admits c → v.Grows c.parent r v' ∧
      ∀ c', r = .ok c' → c'.parent = c.parent ∧ c'.ctx = c.ctx := by
  refine does_bind hx (S := fun _ v r v' => v' = v ∧ r = .ok c)
    (fun _ => does_pure fun v => ⟨rfl, rfl⟩) ?_ ?_
  · rintro v a v₁ r v' hgrows ⟨rfl, rfl⟩ hc
    refine ⟨(hgrows hc).of_ok, fun c' h => ?_⟩
    obtain rfl := Except.ok.inj h
    exact ⟨rfl, rfl⟩
  · intro v err v' h hc
    exact ⟨(h hc).of_error, fun _ h => by cases h⟩

/-- Running a build step. -/
theorem runStep_does (c : Cursor) (step : Step) :
    (runStep re c step).Does fun v r v' => v.Admits c → v.Grows c.parent r v' ∧
      ∀ c', r = .ok c' → c'.parent = c.parent ∧ c'.ctx = c.ctx := by
  have hfail (v : View) (err : EngineError) : v.Admits c →
      v.Grows c.parent (.error err : Except EngineError Cursor) v ∧
        ∀ c', (.error err : Except EngineError Cursor) = .ok c' →
          c'.parent = c.parent ∧ c'.ctx = c.ctx := fun _ => ⟨.refl _ _ v, fun _ h => by cases h⟩
  cases step with
  | element tag actions content => exact step_does (buildElement_does hre tag actions content c)
  | text source => exact step_does (buildText_does hre source c)
  | component name actions slots =>
    refine evaluates_bind hre (fun I h hen => componentName_keeps h.tracking hen c name) (fun name => ?_) hfail
    exact step_does (buildComponent_does hre name actions slots c)
  | choice branches reactive => exact step_does (buildChoice_does hre branches reactive c)
  | loop spec => exact step_does (buildLoop_does hre spec c)
  | set name value body => exact step_does (buildSet_does hre name value body c)
  | slot name fallback => exact step_does (buildSlot_does hre name fallback c)
  | code body line =>
    have hcode := does_evaluation hre.operates (x := runCodeBlock re body line c)
      fun I h hen => runCodeBlock_keeps h.tracking hen body line c
    refine step_does (hcode.mono fun v r v' h _ => ?_)
    rw [h]
    exact .refl _ _ v
  | carrier spec => exact step_does (buildCarrier_does hre spec c)
  | scope bindings body =>
    refine evaluates_bind hre (fun I h hen => bindingValues_keeps h.tracking hen c bindings)
      (fun values => ?_) hfail
    refine evaluates_bind hre (fun I h _ => keeps_step fun _ he => h.tracking.addFrame _ _ he)
      (fun frame => ?_) hfail
    refine (step_does (c := c.inFrame frame) (hre.build body (c.inFrame frame))).mono
      fun v r v' h hc => ?_
    exact h (hc.congr rfl rfl)
  | signal key action => exact step_does (buildSignal_does hre key action c)
  | fragment body => exact step_does (hre.build body c)

/-- Building a body. -/
theorem buildBody_does (body : Body) (c : Cursor) :
    (buildBody re body c).Does fun v r v' => v.Admits c → v.Grows c.parent r v' := by
  have hsteps (steps : List Step) : ∀ c : Cursor, (steps.foldlM (runStep re) c).Does fun v r v' =>
      v.Admits c → v.Grows c.parent r v' := by
    induction steps with
    | nil => exact fun c => does_pure fun v _ => .refl _ _ v
    | cons step steps ih =>
      intro c
      rw [List.foldlM_cons]
      refine does_bind (runStep_does hre c step) ih ?_ fun v err v' h hc => (h hc).1
      intro v c₁ v₁ r v' hstep hrest hc root ht
      obtain ⟨hgrows, hcursor⟩ := hstep hc
      obtain ⟨hparent, hctx⟩ := hcursor c₁ rfl
      have hrest := hrest ((hc.grown (hgrows root ht).1).congr hparent hctx)
      rw [hparent] at hrest
      exact hgrows.trans hrest hc.parent root ht
  exact does_discard (hsteps body.steps c) (fun v a v' h hc => (h hc).of_ok) fun v err v' h hc =>
    (h hc).of_error

end

end Render
end ReactiveView
