import ReactiveView.Proofs.Structure.Updating

/-!
# What failed updates leave

An update that fails on its way may leave the books of loops out of order, but what it leaves is a
tree in which nothing else has changed than the node and what is under it (`View.Stirs`). For each
step of an update it is said what it does to the tree, whatever comes of it; order in the books is
needed of what was there before, and what succeeded on the way has kept it (`Structure.Updating`).

So a tree stays a tree when queued writes are followed up, whether that succeeds or not
(`Render.flush_stirs`).
-/

namespace ReactiveView

namespace View

variable {v v' v₁ : View} {r y c : NodeId}

/-- An update changes a node and what is under it, whether it succeeds or not. -/
def Stirs (y : NodeId) (v v' : View) : Prop :=
  (v.live y = false → v' = v) ∧ ∀ root busy, v.shape.Tree root → v.live y = true → v.Sound busy →
    (∀ b ∈ busy, v.shape.Above b y) → Changed root y v v'

/-- Nothing was changed. -/
theorem Stirs.refl (y : NodeId) (v : View) : v.Stirs y v :=
  ⟨fun _ => rfl, fun _ _ ht _ _ _ => .refl ht y⟩

/-- A node that was changed under its parent leaves the parent itself. -/
theorem Changed.of_child (h : Changed r c v v') (ht : v.shape.Tree r) (hc : v.shape.Parent y c) :
    Changed r y v v' ∧ v'.shape y = v.shape y := by
  obtain ⟨hconfined, hsame⟩ := h.confined.of_child ht hc
  exact ⟨⟨h.later, h.tree, hconfined⟩, hsame⟩

/-- Updating a child of a node, or a node that is gone, leaves the node. It leaves order if it
succeeds. -/
theorem Stirs.of_child {α : Type} {res : Except EngineError α} {id : NodeId} {busy : List NodeId}
    {n : RenderNode} (h : v.Stirs c v') (hupdates : v.Updates c res v') (ht : v.shape.Tree r)
    (hn : v.shape id = some n) (hsound : v.Sound busy)
    (hbusy : ∀ b ∈ busy, b = id ∨ v.shape.Above b id) (hc : c ∈ n.children ∨ v.spent c) :
    Changed r id v v' ∧ v'.shape id = some n ∧ ∀ a, res = .ok a → v'.Sound busy := by
  rcases hc with hc | hspent
  · have hparent : v.shape.Parent id c := ht.child id n c hn hc
    have hlive : v.live c = true := live_of_child ht hn hc
    -- work goes on above the node, hence above its child
    have habove : ∀ b ∈ busy, v.shape.Above b c := by
      intro b hb
      rcases hbusy b hb with rfl | ha
      · exact .single hparent
      · exact .tail ha hparent
    obtain ⟨hchanged, hsame⟩ := (h.2 r busy ht hlive hsound habove).of_child ht hparent
    refine ⟨hchanged, hsame.trans hn, fun a ha => ?_⟩
    exact ((hupdates a ha).2 r busy ht hlive hsound habove).2
  · rw [h.1 (live_of_spent hspent)]
    exact ⟨.refl ht id, hn, fun _ _ => hsound⟩

/-- A tree stays a tree, with its root. -/
def Roots (v v' : View) : Prop :=
  ∀ root, v.shape.Tree root → v.Sound [] → v'.shape.Tree root ∧ v'.live root = v.live root

/-- A node was changed in a tree. -/
theorem Stirs.roots (h : v.Stirs y v') : v.Roots v' := by
  intro root ht hsound
  cases hy : v.live y with
  | false =>
    rw [h.1 hy]
    exact ⟨ht, rfl⟩
  | true =>
    have hchanged := h.2 root [] ht hy hsound fun b hb => (List.not_mem_nil hb).elim
    exact ⟨hchanged.tree, hchanged.live_root ht hy⟩

/-- What keeps a tree with its books, and then a tree, keeps a tree. -/
theorem Settles.roots (h : v.Settles v₁) (h' : v₁.Roots v') : v.Roots v' := by
  intro root ht hsound
  obtain ⟨ht₁, hsound₁, hlive₁⟩ := h root ht hsound
  obtain ⟨ht', hlive'⟩ := h' root ht₁ hsound₁
  exact ⟨ht', hlive'.trans hlive₁⟩

/-- Instances of keys are kept or built under a loop that is being worked on. That changes what is
under the loop, whether it succeeds or not. -/
def StirsAll (c : Cursor) (old : OrderedMap Key Instance) (keys : List Key) (v v' : View) : Prop :=
  ∀ root busy n, v.shape.Tree root → v.shape c.parent = some n → v.Sound (c.parent :: busy) →
    (∀ b ∈ busy, v.shape.Above b c.parent) → n.isContext = false → n.context = c.ctx →
      (∀ key ∈ keys, ∀ kept, old.get? key = some kept →
        ∀ x ∈ kept.nodes, x ∈ n.children ∨ v.spent x) → Changed root c.parent v v'

/-- After the instance of one key the others are kept or built. -/
theorem StirsAll.cons {cur : Cursor} {old : OrderedMap Key Instance} {key : Key} {keys : List Key}
    (hfirst : ∀ root busy n, v.shape.Tree root → v.shape cur.parent = some n →
      v.Sound (cur.parent :: busy) → (∀ b ∈ busy, v.shape.Above b cur.parent) →
        n.isContext = false → n.context = cur.ctx →
          (∀ kept, old.get? key = some kept → ∀ x ∈ kept.nodes, x ∈ n.children ∨ v.spent x) →
            Changed root cur.parent v v₁ ∧ v₁.Sound (cur.parent :: busy) ∧
              ∃ extra, v₁.shape cur.parent = some { n with children := n.children ++ extra })
    (hrest : v₁.StirsAll cur old keys v') : v.StirsAll cur old (key :: keys) v' := by
  intro root busy n ht hn hsound hbusy hno hctx hold
  obtain ⟨hchanged, hsound₁, extra, hn₁⟩ :=
    hfirst root busy n ht hn hsound hbusy hno hctx (hold key List.mem_cons_self)
  have hlive : v.live cur.parent = true := live_iff.2 ⟨n, hn⟩
  have habove : ∀ b ∈ busy, v₁.shape.Above b cur.parent := fun b hb =>
    hchanged.above ht hlive (hbusy b hb)
  -- what is kept later is still among the children, or has gone for good
  have hlater : ∀ key' ∈ keys, ∀ kept, old.get? key' = some kept →
      ∀ x ∈ kept.nodes, x ∈ n.children ++ extra ∨ v₁.spent x := by
    intro key' hkey' kept hkept x hx
    rcases hold key' (List.mem_cons_of_mem key hkey') kept hkept x hx with hmem | hspent
    · exact .inl (List.mem_append_left extra hmem)
    · exact .inr (hchanged.later.spent x hspent)
  exact hchanged.trans ht (hrest root busy _ hchanged.tree hn₁ hsound₁ habove hno hctx hlater)

end View

/-- What a step that cannot fail ensures is so whatever comes of it. -/
theorem Act.Ensures.always {α : Type} {x : Act α} {S : View → α → View → Prop} (h : x.Ensures S)
    (hx : ∀ ⦃e r e'⦄, x.Gives e r e' → ∃ a, r = .ok a) :
    x.Does fun v r v' => ∃ a, r = .ok a ∧ S v a v' where
  calm := h.calm
  valid := h.valid
  spec e r e' hgives hcalm hvalid := by
    obtain ⟨a, rfl⟩ := hx hgives
    exact ⟨a, rfl, h.spec hgives hcalm hvalid a rfl⟩

/-- What is needed of the operations that are entered anew, so that failures leave trees. -/
structure Reentry.Stirring (re : Reentry) : Prop extends re.Grounded where
  /-- Updating changes the node and what is under it, whatever comes of it. -/
  stirs : ∀ id, (re.update id).Does fun v _ v' => v.Stirs id v'

namespace Render

open Act

variable {re : Reentry}

section

variable (hre : re.Stirring)
include hre

/-! ## Children -/

/-- Updating children of a node, and nodes that are gone. -/
theorem updateAll_stirs (id : NodeId) (cs : List NodeId) :
    Act.Does (cs.forM re.update) fun v _ v' => ∀ root busy n,
      v.shape.Tree root → v.shape id = some n → v.Sound busy →
      (∀ b ∈ busy, b = id ∨ v.shape.Above b id) → (∀ c ∈ cs, c ∈ n.children ∨ v.spent c) →
        View.Changed root id v v' := by
  induction cs with
  | nil => exact does_pure fun v root busy n ht _ _ _ _ => .refl ht id
  | cons c cs ih =>
    -- the first of them was updated, or its update has failed
    refine does_bind ((hre.update c).and (hre.stirs c)) (fun _ => ih) ?_ ?_
    · intro v a v₁ r v' hfirst hrest root busy n ht hn hsound hbusy hcs
      obtain ⟨hchanged, hn₁, hsound₁⟩ :=
        hfirst.2.of_child hfirst.1 ht hn hsound hbusy (hcs c List.mem_cons_self)
      have hlive : v.live id = true := View.live_iff.2 ⟨n, hn⟩
      refine hchanged.trans ht (hrest root busy n hchanged.tree hn₁ (hsound₁ a rfl) ?_ ?_)
      · exact fun b hb => (hbusy b hb).imp_right (hchanged.above ht hlive)
      · exact fun c' hc' => (hcs c' (List.mem_cons_of_mem c hc')).imp_right
          (hchanged.later.spent c')
    · intro v err v' hfirst root busy n ht hn hsound hbusy hcs
      exact (hfirst.2.of_child hfirst.1 ht hn hsound hbusy (hcs c List.mem_cons_self)).1

/-- Updating everything under a node. -/
theorem updateChildren_stirs (id : NodeId) :
    (updateChildren re id).Does fun v _ v' => v.Stirs id v' := by
  refine does_bind_read fun e => ?_
  cases hlive : e.contains id with
  | false =>
    have hchildren : e.childrenOf id = [] := by
      unfold Engine.childrenOf Engine.node?
      rw [Option.isNone_iff_eq_none.1 (Option.isSome_eq_false_iff.1 hlive)]
      rfl
    rw [hchildren]
    exact does_pure fun v _ => .refl id v
  | true =>
    refine (updateAll_stirs hre id (e.childrenOf id)).mono fun v r v' h hview => ?_
    rw [← Engine.live_view, ← hview] at hlive
    refine ⟨fun hdead => absurd (hlive.symm.trans hdead) (by decide), ?_⟩
    intro root busy ht _ hsound habove
    obtain ⟨n, hn⟩ := View.live_iff.1 hlive
    have hchildren : e.childrenOf id = n.children := Engine.childrenOf_view (hview ▸ hn)
    exact h root busy n ht hn hsound (fun b hb => .inr (habove b hb))
      fun c hc => .inl (hchildren ▸ hc)

/-- Updating what is under a node, if that is asked for. -/
theorem descend_stirs (id : NodeId) (recursive : Bool) :
    Act.Does (if recursive then updateChildren re id else pure ()) fun v _ v' => v.Stirs id v' :=
  does_ite (updateChildren_stirs hre id) (does_pure fun v => .refl id v)

/-! ## Filling anew -/

omit hre in
/-- Clearing a node and completing it anew. -/
theorem clear_bind_stirs {id : NodeId} {x : Act Unit} (kind : RenderKind)
    (hx : x.Does fun v r v' => ∀ n, v.shape id = some n → n.kind = kind → n.children = [] →
      v.Fills id r v') : Act.Does (do
        change (·.clearChildren id)
        x) fun v _ v' => (∃ n, v.shape id = some n ∧ n.kind = kind) → v.Stirs id v' := by
  have hstirs {v v₁ v' : View} {r : Except EngineError Unit}
      (hcleared : ∀ root, v.shape.Tree root → v.Later v₁ ∧ v₁.shape = v.shape.prune id)
      (hrest : v' = v₁ ∨ ∀ n, v₁.shape id = some n → n.kind = kind → n.children = [] →
        v₁.Fills id r v') (hid : ∃ n, v.shape id = some n ∧ n.kind = kind) : v.Stirs id v' := by
    obtain ⟨n, hn, hkind⟩ := hid
    refine ⟨fun hdead => ?_, fun root busy ht hlive _ _ => ?_⟩
    · rw [View.live, hn] at hdead
      cases hdead
    · obtain ⟨hlater, hshape⟩ := hcleared root ht
      have hpruned := View.Changed.prune ht hlater hshape
      rcases hrest with rfl | hfills
      · exact hpruned
      · have hn₁ : v₁.shape id = some { n with children := [] } := by
          rw [hshape, Forest.prune_self ht hn]
        exact hpruned.trans ht (hfills _ hn₁ hkind rfl root hpruned.tree (hpruned.live hlive)).1
  refine does_bind (clearChildren_does id) (fun _ => hx) ?_ ?_
  · exact fun v a v₁ r v' hcleared hfills => hstirs hcleared (.inr hfills)
  · exact fun v err v' hcleared => hstirs (r := .error err) hcleared (.inl rfl)

/-- Updating a loop without identities. -/
theorem updatePlain_stirs (id : NodeId) (items : List Value) (recursive : Bool) :
    (updatePlain re id items recursive).Does fun v _ v' => v.Stirs id v' := by
  refine does_bind_read fun e => ?_
  split
  · exact does_pure fun v _ => .refl id v
  rename_i n hn
  split
  · have hfill : Act.Does (do
        change (·.clearChildren id)
        fillLoop re id items) fun v _ v' => v = e.view → v.Stirs id v' := by
      refine (clear_bind_stirs n.shape.kind
        ((fillLoop_does hre.toBuilds id items).mono fun v r v' h m hm _ hleaf => ?_)).mono
        fun v r v' h hview => h ⟨n.shape, hview ▸ Engine.view_of_node? hn, rfl⟩
      refine h fun n' hn' => ?_
      rw [hm, Option.some.injEq] at hn'
      rwa [← hn']
    exact does_ite ((descend_stirs hre id recursive).mono fun _ _ _ h _ => h) hfill
  · exact does_pure fun v _ => .refl id v

/-! ## Loops with identities -/

/-- Binding an instance anew, and updating it. -/
theorem keepInstance_stirs (id : NodeId) (spec : LoopSpec) (c : Cursor) (kept : Instance)
    (item : Value) (index : Nat) (identity : Value) (recursive : Bool) :
    (keepInstance re spec c kept item index identity recursive).Does fun v _ v' =>
      ∀ root busy n, v.shape.Tree root → v.shape id = some n → v.Sound busy →
        (∀ b ∈ busy, b = id ∨ v.shape.Above b id) → (∀ c ∈ kept.nodes, c ∈ n.children ∨ v.spent c) →
          View.Changed root id v v' := by
  refine evaluates_bind hre.toBuilds (fun I h _ => keeps_step fun _ he => ?_) (fun changed => ?_)
    fun v err root busy n ht _ _ _ _ => .refl ht id
  · exact h.tracking.rebindFrame _ _ _ (h.tracking.rebindFrame _ _ _ he)
  · exact does_ite (updateAll_stirs hre id kept.nodes)
      (does_pure fun v root busy n ht _ _ _ _ => .refl ht id)

/-- Keeping or building the instances of the wanted items. -/
theorem arrangeInstances_stirs (spec : LoopSpec) (c : Cursor) (recursive : Bool)
    (old : OrderedMap Key Instance) (wanted : List (Key × Value × Value)) :
    ∀ index, (arrangeInstances re spec c recursive old index wanted).Does fun v _ v' =>
      v.StirsAll c old (wanted.map (·.1)) v' := by
  induction wanted with
  | nil => exact fun index => does_pure fun v root busy n ht _ _ _ _ _ _ => .refl ht c.parent
  | cons w wanted ih =>
    intro index
    obtain ⟨key, identity, item⟩ := w
    have hrest (f : List (Key × Instance) × List NodeId → List (Key × Instance) × List NodeId) :
        Act.Does (do
          let p ← arrangeInstances re spec c recursive old (index + 1) wanted
          return f p) fun v _ v' => v.StirsAll c old (wanted.map (·.1)) v' := by
      refine does_bind (ih (index + 1)) (fun p => does_pure (T := fun v _ v' => v' = v)
        fun _ => rfl) ?_ fun _ _ _ h => h
      rintro v p v₁ r v' h rfl
      exact h
    unfold arrangeInstances
    split
    · rename_i kept hkept
      refine does_bind (Does.and
        (keepInstance_stirs hre c.parent spec c kept item index identity recursive)
        (keepInstance_does hre.toGrounded c.parent spec c kept item index identity recursive))
        (fun _ => hrest _) ?_ ?_
      · intro v u v₁ r v' hfirst hrest
        refine .cons (fun root busy n ht hn hsound hbusy _ _ hold => ?_) hrest
        obtain ⟨hchanged, hsound₁, hn₁⟩ := hfirst.2 u rfl root (c.parent :: busy) n ht hn hsound
          (fun b hb => (List.mem_cons.1 hb).imp_right (hbusy b)) (hold kept hkept)
        exact ⟨hchanged, hsound₁, [], by rw [hn₁, List.append_nil]⟩
      · intro v err v' hfirst root busy n ht hn hsound hbusy _ _ hold
        exact hfirst.1 root (c.parent :: busy) n ht hn hsound
          (fun b hb => (List.mem_cons.1 hb).imp_right (hbusy b))
          (hold key List.mem_cons_self kept hkept)
    · rename_i hnone
      refine does_bind (Does.and
        (buildInstance_does hre.toBuilds spec c item index (some identity))
        (buildInstance_ensures hre.toGrounded spec c item index identity)) (fun _ => hrest _) ?_ ?_
      · intro v built v₁ r v' hfirst hrest
        refine .cons (fun root busy n ht hn hsound hbusy hno hctx hold => ?_) hrest
        have hc : v.Admits c :=
          (View.admits_of_node ht hn hno c.frame c.ns).congr rfl hctx.symm
        obtain ⟨hg, hsound₁, hn₁⟩ := hfirst.2 built rfl root busy n ht hn hsound hc
        exact ⟨hg.changed, hsound₁, built.nodes, hn₁⟩
      · intro v err v' hfirst root busy n ht hn hsound hbusy hno hctx hold
        have hc : v.Admits c :=
          (View.admits_of_node ht hn hno c.frame c.ns).congr rfl hctx.symm
        exact ((hfirst.1 hc).1 root ht).1.changed

/-- Finishing a loop that was brought in line with its items. -/
theorem endLoop_stirs (spec : LoopSpec) (c : Cursor) (all : OrderedMap Key Instance) :
    (finishLoop re c.parent spec c (.keyed all)).Does fun v _ v' =>
      ∀ root busy, v.Working root c busy spec all → View.Changed root c.parent v v' := by
  refine (finishLoop_does hre.toBuilds c.parent spec c (.keyed all)).mono ?_
  intro v r v' h root busy hw
  obtain ⟨n, hn, hloop, hlists⟩ := hw.node
  obtain ⟨data, hdata, hspec⟩ := hloop.data
  have hc : v.Admits c :=
    (View.admits_of_node hw.tree hn hloop.isContext c.frame c.ns).congr rfl hloop.context.symm
  exact (h n data hn hdata hspec hc rfl (fun _ => ⟨all, rfl, hlists⟩) root hw.tree hc.parent).1

/-- Putting instances that are all there into their order, and finishing the loop. -/
theorem endReconcile_stirs (spec : LoopSpec) (c : Cursor) (all : OrderedMap Key Instance)
    (moved : List NodeId) : Act.Does (do
      change (·.orderChildren c.parent all)
      change fun e => moved.foldl Engine.markRebind e
      finishLoop re c.parent spec c (.keyed all)) fun v _ v' =>
        ∀ root busy, v.Arranged root c busy spec all → View.Changed root c.parent v v' := by
  have hend : Act.Does (do
      change fun e => moved.foldl Engine.markRebind e
      finishLoop re c.parent spec c (.keyed all)) fun v _ v' =>
        ∀ root busy, v.Working root c busy spec all → View.Changed root c.parent v v' := by
    refine does_bind (markRebind_does moved) (fun _ => endLoop_stirs hre spec c all) ?_ ?_
    · rintro v u v₁ r v' rfl h
      exact h
    · rintro v err v' rfl root busy hw
      exact .refl hw.tree c.parent
  have horder := (orderChildren_does c spec all).always fun e r e' h => ⟨(), (gives_change.1 h).1⟩
  refine does_bind horder (fun _ => hend) ?_ ?_
  · rintro v u v₁ r v' ⟨_, -, h⟩ hrest root busy ha
    obtain ⟨hchanged, hw⟩ := h root busy ha
    exact hchanged.trans ha.tree (hrest root busy hw)
  · rintro v err v' ⟨_, herr, -⟩
    cases herr

/-- Dropping the instances that are not wanted, and arranging those that are. -/
theorem arrange_stirs (spec : LoopSpec) (c : Cursor) (recursive : Bool)
    (old : OrderedMap Key Instance) (wanted : OrderedMap Key (Value × Value)) : Act.Does (do
      change (·.dropInstances old wanted.contains)
      let (arranged, moved) ← arrangeInstances re spec c recursive old 0 wanted.entries
      let instances : OrderedMap Key Instance := ⟨arranged⟩
      change (·.orderChildren c.parent instances)
      change fun e => moved.foldl Engine.markRebind e
      finishLoop re c.parent spec c (.keyed instances)) fun v _ v' =>
        ∀ root busy, wanted.Distinct → v.Working root c busy spec old →
          View.Changed root c.parent v v' := by
  have harrange := Does.and (arrangeInstances_stirs hre spec c recursive old wanted.entries 0)
    (arrangeInstances_does hre.toGrounded spec c recursive old wanted.entries 0)
  have hrest := does_bind (U := fun v _ v' => ∀ root busy, old.Distinct → wanted.Distinct →
      v.Working root c busy spec (old.filter fun key _ => wanted.contains key) →
        View.Changed root c.parent v v')
    harrange (fun p => endReconcile_stirs hre spec c ⟨p.1⟩ p.2) ?_ ?_
  · have hdrop := (dropInstances_does c spec old wanted.contains).always
      fun e r e' h => ⟨(), (gives_change.1 h).1⟩
    refine does_bind hdrop (fun _ => hrest) ?_ ?_
    · rintro v u v₁ r v' ⟨_, -, h⟩ hrest root busy hdistinct hw
      obtain ⟨hchanged, hw₁⟩ := h root busy hw
      obtain ⟨_, -, -, hlists⟩ := hw.node
      exact hchanged.trans hw.tree (hrest root busy hlists.distinct hdistinct hw₁)
    · rintro v err v' ⟨_, herr, -⟩
      cases herr
  · intro v p v₁ r v' hfirst hend root busy hold hdistinct hw
    obtain ⟨hchanged, ha⟩ := hw.arranged hold hdistinct (OrderedMap.contains_iff wanted)
      (hfirst.2 p rfl)
    exact hchanged.trans hw.tree (hend root busy ha)
  · -- the loop was in order before an instance could not be built or updated
    intro v err v' hfirst root busy hold hdistinct hw
    obtain ⟨n, hn, hloop, hlists, hknown⟩ := hw.ready (OrderedMap.contains_iff wanted)
    exact hfirst.1 root busy n hw.tree hn hw.sound hw.above hloop.isContext hloop.context hknown

/-- Bringing a loop with identities in line with its items. -/
theorem reconcile_stirs (id : NodeId) (items : List Value) (recursive : Bool) :
    (reconcile re id items recursive).Does fun v _ v' =>
      (∃ n, v.shape id = some n ∧ n.isKeyed = true) → v.Stirs id v' := by
  refine does_bind_read fun e => ?_
  cases hparts : e.loopParts? id with
  | none => exact does_pure fun v _ _ => .refl id v
  | some parts =>
    obtain ⟨spec, c⟩ := parts
    obtain ⟨n, data, hn, hdata, hspec, rfl, hctx⟩ := Engine.loopParts?_some hparts
    have hloop : n.Repeats spec c := ⟨⟨data, hdata, hspec⟩, hctx.symm⟩
    have htake := (takeInstances_does spec c).always fun e r e' h => ⟨_, (gives_step.1 h).1⟩
    have hwanted (old : OrderedMap Key Instance) := does_bind
      (U := fun v _ v' => ∀ root busy, v.Working root c busy spec old →
        View.Changed root c.parent v v')
      (wantedItems_does hre.toGrounded spec c items)
      (fun wanted => arrange_stirs hre spec c recursive old wanted) ?_ ?_
    · refine does_bind htake (fun old => hwanted old) ?_ ?_
      · rintro v old v₁ r v' ⟨_, hold, h⟩ hrest hview ⟨m, hm, hkeyed⟩
        obtain rfl := Except.ok.inj hold
        obtain rfl : m = n := by
          rw [hview] at hm
          exact Option.some.inj (hm.symm.trans hn)
        have hlive : v.live c.parent = true := View.live_iff.2 ⟨m, hm⟩
        refine ⟨fun hdead => absurd (hlive.symm.trans hdead) (by decide), ?_⟩
        intro root busy ht _ hsound habove
        obtain ⟨hchanged, hw⟩ := h root busy m ht hm hloop hkeyed hsound habove
        exact hchanged.trans ht (hrest root busy hw)
      · rintro v err v' ⟨_, herr, -⟩
        cases herr
    · rintro v wanted v₁ r v' ⟨rfl, hdistinct⟩ h root busy hw
      exact h root busy (hdistinct wanted rfl) hw
    · rintro v err v' ⟨rfl, -⟩ root busy hw
      exact .refl hw.tree c.parent

/-! ## Nodes -/

omit hre in
/-- Clearing a node that keeps no books, and building its content anew. -/
theorem refill_stirs {e : Engine} {id : NodeId} {n : RenderNode} {x : Act Unit}
    (hn : e.node? id = some n) (hbooks : n.isKeyed = false)
    (hx : x.Does fun v r v' => v.Grows id r v') : Act.Does (do
      change (·.clearChildren id)
      x) fun v _ v' => v = e.view → v.Stirs id v' := by
  refine (clear_bind_stirs n.shape.kind (hx.mono fun v r v' h m hm hkind _ =>
    h.fills fun m' hm' => ?_)).mono fun v r v' h hv => h ⟨_, hv ▸ Engine.view_of_node? hn, rfl⟩
  obtain rfl : m = m' := Option.some.inj (hm.symm.trans hm')
  rw [RenderNode.isKeyed_congr hkind, RenderNode.isKeyed_shape, hbooks]

/-- Updating a node that has no children of its own is an evaluation. -/
theorem evaluates_stirs {x : Act Unit} (hx : x.Evaluates re) (id : NodeId) :
    x.Does fun v _ v' => v.Stirs id v' :=
  (does_evaluation hre.operates hx).mono fun v r v' h => by
    rw [h]
    exact .refl id v

/-- Evaluating a node again. -/
theorem updateNode_stirs (id : NodeId) (recursive : Bool) :
    (updateNode re id recursive).Does fun v _ v' => v.Stirs id v' := by
  have hre' := hre.toBuilds
  have herr (v : View) (_ : EngineError) : v.Stirs id v := .refl id v
  have herr' (e : Engine) (v : View) (_ : EngineError) : v = e.view → v.Stirs id v :=
    fun _ => .refl id v
  have hpurge : (change (·.purge id)).Evaluates re :=
    fun I h _ => keeps_change fun _ he => h.purge id he
  have hreport : (change (·.report id)).Evaluates re :=
    fun I h _ => keeps_change fun _ he => h.report he
  have hdescend := descend_stirs hre id recursive
  refine evaluates_bind hre' (fun I h _ => keeps_poll fun _ he => h.tracking.poll he)
    (fun _ => ?_) herr
  refine does_bind_read fun e => ?_
  cases hfound : e.node? id with
  | none => exact does_pure fun v _ => .refl id v
  | some n =>
    have hview := Engine.view_of_node? hfound
    have hsame {x : Act Unit} (hx : x.Does fun v _ v' => v.Stirs id v') :
        x.Does fun v _ v' => v = e.view → v.Stirs id v' := hx.mono fun v r v' h _ => h
    -- every kind of node drops its reads, evaluates, and then fills anew or goes down
    dsimp only
    split
    · refine hsame (evaluates_bind hre' hpurge (fun _ => ?_) herr)
      refine evaluates_bind hre' (evaluates_refreshElement id) (fun changed => ?_) herr
      cases changed with
      | true => exact evaluates_bind hre' hreport (fun _ => hdescend) herr
      | false => exact hdescend
    · refine hsame (evaluates_bind hre' hpurge (fun _ => ?_) herr)
      refine evaluates_bind hre' (evaluates_refreshText id) (fun changed => ?_) herr
      cases changed with
      | true => exact evaluates_stirs hre hreport id
      | false => exact does_pure fun v => .refl id v
    · exact hsame (evaluates_bind hre'
        (fun I h hen => propagateSources_keeps h.tracking hen trivial n _) (fun _ => hdescend) herr)
    · rename_i data hdata
      refine evaluates_bind hre' hpurge (fun _ => ?_) (herr' e)
      refine evaluates_bind hre' (fun I h hen => selectBranch_keeps h.tracking hen trivial)
        (fun selected => ?_) (herr' e)
      split
      · exact refill_stirs hfound (by rw [RenderNode.isKeyed, hdata])
          (buildBranch_does hre' id selected)
      · exact hsame hdescend
    · rename_i data hdata
      refine evaluates_bind hre' hpurge (fun _ => ?_) (herr' e)
      refine evaluates_bind hre' (fun I h hen => loopItems_keeps h.tracking hen trivial)
        (fun items => ?_) (herr' e)
      split
      · rename_i hkeyed
        refine (reconcile_stirs hre id items recursive).mono fun v r v' h hv =>
          h ⟨n.shape, hv ▸ hview, ?_⟩
        rw [RenderNode.isKeyed_shape, RenderNode.isKeyed, hdata]
        exact hkeyed
      · exact hsame (updatePlain_stirs hre id items recursive)
    · rename_i data hdata
      refine evaluates_bind hre' hpurge (fun _ => ?_) (herr' e)
      refine evaluates_bind hre' (fun I h hen => setValue_keeps h.tracking hen trivial)
        (fun value => ?_) (herr' e)
      split
      · exact refill_stirs hfound (by rw [RenderNode.isKeyed, hdata]) (fillSet_does hre' id value)
      · exact hsame hdescend
    · exact does_pure fun v _ => .refl id v
    · split
      · exact does_pure fun v _ => .refl id v
      · exact hsame (evaluates_stirs hre
          (fun I h hen => fireSignal_keeps h.tracking hen _ id _) id)

/-! ## Following writes up -/

/-- Updating nodes that still exist. -/
theorem updateLive_stirs (ids : List NodeId) :
    (updateLive re ids).Does fun v _ v' => v.Roots v' := by
  induction ids with
  | nil => exact does_pure fun v root ht _ => ⟨ht, rfl⟩
  | cons id ids ih =>
    have hstirs : Act.Does (do if ← Act.read (·.contains id) then updateNode re id false)
        fun v _ v' => v.Roots v' := by
      refine does_bind_read fun e => ?_
      split
      · exact (updateNode_stirs hre id false).mono fun v r v' h _ => h.roots
      · exact does_pure fun v _ root ht _ => ⟨ht, rfl⟩
    have hsettles : Act.Ensures (do if ← Act.read (·.contains id) then updateNode re id false)
        fun v _ v' => v.Settles v' := by
      refine does_bind_read fun e => ?_
      dsimp only
      split
      · exact (updateNode_does hre.toGrounded id false).mono fun v r v' h _ a ha => h.settles ha
      · exact does_pure fun v _ _ _ => .refl v
    -- as long as the updates succeed there is order, and the first that fails leaves a tree
    refine does_bind (Does.and hstirs hsettles) (fun _ => ih) ?_ ?_
    · exact fun v u v₁ r v' hfirst hrest => (hfirst.2 u rfl).roots hrest
    · exact fun v err v' hfirst => hfirst.1

/-- Following queued writes up. -/
theorem flush_stirs (limit rounds : Nat) :
    (flush re limit rounds).Does fun v _ v' => v.Roots v' := by
  have hstays {α : Type} {x : Act α} (hx : x.Evaluates re) : x.Does fun v _ v' => v.Roots v' :=
    (does_evaluation hre.operates hx).mono fun v r v' h root ht _ => by
      rw [h]
      exact ⟨ht, rfl⟩
  induction rounds with
  | zero =>
    refine hstays fun I h _ => keeps_bind (keeps_read _) fun pending => ?_
    split
    · exact keeps_pure _
    · exact keeps_change fun _ he => h.outside he rfl rfl rfl rfl
  | succ rounds ih =>
    refine does_bind_read fun e => ?_
    cases e.pending.isEmpty with
    | true => exact does_pure fun v _ root ht _ => ⟨ht, rfl⟩
    | false =>
      have hupdates (ids : List NodeId) : Act.Does (do
          updateLive re ids
          flush re limit rounds) fun v _ v' => v.Roots v' := by
        refine does_bind (Does.and (updateLive_stirs hre ids)
          (updateLive_does hre.toGrounded ids)) (fun _ => ih) ?_ ?_
        · exact fun v u v₁ r v' hfirst hrest => (hfirst.2 u rfl).roots hrest
        · exact fun v err v' hfirst => hfirst.1
      have htake : takeReaders.Evaluates re :=
        fun I h _ => keeps_step fun _ he => h.outside he rfl rfl rfl rfl
      exact (evaluates_bind hre.toBuilds htake hupdates fun v err root ht _ => ⟨ht, rfl⟩).mono
        fun v r v' h _ => h

end

end Render

/-- The operations that may be entered anew leave trees, whatever comes of them. -/
theorem Reentry.within_stirring (depth : Nat) : (Reentry.within depth).Stirring := by
  induction depth with
  | zero =>
    have hvalid := Reentry.within_operates 0 _ Engine.valid_stable.closed
    have hcalm := Reentry.within_operates 0 _ Engine.calm_stable.closed
    exact ⟨Reentry.within_grounded 0, fun id =>
      ⟨hcalm.update id, hvalid.update id, fun _ _ _ hgives => by cases hgives⟩⟩
  | succ depth ih =>
    exact ⟨Reentry.within_grounded (depth + 1), fun id => Render.updateNode_stirs ih id true⟩

end ReactiveView
