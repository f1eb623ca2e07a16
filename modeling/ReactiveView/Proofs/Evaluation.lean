import ReactiveView.Proofs.Correspondence
import ReactiveView.Proofs.Quiet

/-!
# What evaluation may do to the tree

Evaluation reads the tree and writes into it, but it gives it no other shape. What stays is the
skeleton of each node (`RenderNode.skeleton`): its place, its context, its flags and frame, and what
it was built from. What may change is what the node shows, its variables, the records of its reads
and its names.

An invariant is `Engine.EvaluationClosed` if it survives each kind of change that evaluation makes:
reads are recorded for certain nodes only, what a node shows is changed with a report, and other
changes are quiet. Every operation that only evaluates keeps such an invariant, provided that code
which rebuilds or updates nodes keeps it (`Reentry.EntersKeeping`). Each operation has one lemma here.

An invariant that does not look at registrations and reports is `Engine.EvaluationStable`: it survives
any change that leaves skeletons.
-/

namespace ReactiveView

/-! ## Skeletons -/

/-- What a component instance was built from. -/
def ContextData.skeleton (data : ContextData) : ContextData :=
  { data with
    scope := .empty, index := .empty, refs := .empty, sources := [], executed := false
    restyle := false }

/-- What a node was built from. -/
def RenderKind.skeleton : RenderKind → RenderKind
  | element data => element data.skeleton
  | text data => text { data with text := "" }
  | context data => context data.skeleton
  | condition data => condition { data with selected := none }
  | loop data => loop data
  | set data => set { data with current := .null }
  | carrier data => carrier data
  | signal data => signal data

/-- A node without what evaluation may change. -/
def RenderNode.skeleton (n : RenderNode) : RenderNode :=
  { n with kind := n.kind.skeleton, refName := none, watchers := [] }

/-- Edits of an element that leave what it was built from. -/
theorem RenderKind.skeleton_modifyElement {f : ElementData → ElementData}
    (hf : ∀ data, (f data).skeleton = data.skeleton) (kind : RenderKind) :
    (kind.modifyElement f).skeleton = kind.skeleton := by
  cases kind with
  | element data => simp only [modifyElement, skeleton, hf]
  | _ => rfl

/-- Edits of a component instance that leave what it was built from. -/
theorem RenderKind.skeleton_modifyContext {f : ContextData → ContextData}
    (hf : ∀ data, (f data).skeleton = data.skeleton) (kind : RenderKind) :
    (kind.modifyContext f).skeleton = kind.skeleton := by
  cases kind with
  | context data => simp only [modifyContext, skeleton, hf]
  | _ => rfl

/-- Show a text in a text node; whether it differs from the present one. -/
def Engine.showText (e : Engine) (id : NodeId) (text : String) : Bool × Engine :=
  match (e.node? id).map (·.kind) with
  | some (RenderKind.text data) =>
    (data.text ≠ text, e.modifyKind id fun _ => .text { data with text := text })
  | _ => (false, e)

/-- A change of a node that leaves its skeleton and what the consumer is shown. -/
structure RenderNode.Still (n n' : RenderNode) : Prop where
  /-- The skeleton stays. -/
  skeleton : n'.skeleton = n.skeleton
  /-- The node is shown alike. -/
  picture : n'.kind.picture = n.kind.picture
  /-- Code that was run stays run. -/
  hasRun : n.kind.hasRun = true → n'.kind.hasRun = true

/-- Such a change leaves what no operation changes. -/
theorem RenderNode.Still.fixed {n n' : RenderNode} (h : n.Still n') : n.Fixed n' :=
  ⟨congrArg (·.parent) h.skeleton, congrArg (·.flags.reportable) h.skeleton,
    congrArg Picture.fixed h.picture⟩

/-- A node keeps being no component instance. -/
theorem RenderNode.Still.index?_eq_none {n n' : RenderNode} (h : n.Still n') :
    n'.kind.index? = none ↔ n.kind.index? = none := by
  have hkind := congrArg (·.kind) h.skeleton
  revert hkind
  simp only [RenderNode.skeleton, RenderKind.index?, Option.map_eq_none_iff]
  cases n'.kind <;> cases n.kind <;> simp [RenderKind.skeleton, RenderKind.context?]

/-- Edits of an element leave its make. -/
theorem RenderKind.fixed_modifyElement {f : ElementData → ElementData}
    (hf : ∀ data, (f data).skeleton = data.skeleton) (kind : RenderKind) :
    (kind.modifyElement f).picture.fixed = kind.picture.fixed := by
  cases kind with
  | element data =>
    have hskeleton := hf data
    unfold ElementData.skeleton at hskeleton
    simp only [ElementData.mk.injEq] at hskeleton
    simp only [modifyElement, picture, Picture.fixed, hskeleton]
  | _ => rfl

/-- Changing a component instance leaves its skeleton and what the consumer is shown, unless that is
changed itself. -/
theorem RenderNode.still_modifyContext {f : ContextData → ContextData}
    (hf : ∀ data, (f data).skeleton = data.skeleton)
    (hrun : ∀ data, data.executed = true → (f data).executed = true) (n : RenderNode) :
    n.Still { n with kind := n.kind.modifyContext f } where
  skeleton := by simp only [skeleton, RenderKind.skeleton_modifyContext hf]
  picture := RenderKind.picture_modifyContext (fun data => congrArg (·.name) (hf data)) _
  hasRun := RenderKind.hasRun_modifyContext hrun _

/-! ## Invariants -/

/-- Reads at a site are recorded for certain nodes only. -/
def Site.ReadsFor (readers : NodeId → Prop) (site : Site) : Prop :=
  ∀ node, site.track = some node → readers node

/-- Reads for a node are recorded for that node. -/
theorem Site.readsFor_ofNode {readers : NodeId → Prop} {id : NodeId} (hid : readers id) (ctx : NodeId)
    (frame : Option FrameId) (tracked : Bool) : (ofNode ctx frame id tracked).ReadsFor readers := by
  intro node hnode
  unfold ofNode at hnode
  cases tracked with
  | true =>
    cases hnode
    exact hid
  | false => cases hnode

/-- Reads at a site without a reader are not recorded. -/
theorem Site.readsFor_untracked {readers : NodeId → Prop} (ctx : NodeId) (frame : Option FrameId)
    (this : Option NodeId) : ReadsFor readers ⟨ctx, frame, this, none⟩ := nofun

namespace Engine

/-- An invariant that evaluation cannot break if it records reads for certain nodes only. -/
structure EvaluationClosed (readers : NodeId → Prop) (I : Engine → Prop) : Prop where
  /-- Changes outside of the tree. -/
  outside : ∀ {e e' : Engine}, I e → e'.nodes = e.nodes → e'.shot = e.shot →
    e'.root = e.root → e'.entries = e.entries → I e'
  /-- Quiet changes of a node that leave its skeleton. -/
  quiet : ∀ {e : Engine} {id : NodeId} {f : RenderNode → RenderNode},
    (∀ n, e.node? id = some n → (f n).skeleton = n.skeleton ∧ n.Quiet (f n)) → I e →
      I (e.modifyNode id f)
  /-- Records of reads. -/
  track : ∀ {e : Engine} {node : NodeId} (owner : NodeId) (name : String), readers node → I e →
    I (e.track owner name node)
  /-- Dropping the records of the reads of a node. -/
  purge : ∀ {e : Engine} (id : NodeId), I e → I (e.purge id)
  /-- Edits of an element by code. -/
  edit : ∀ {e : Engine} (id : NodeId) {f : ElementData → ElementData},
    (∀ data : ElementData, data.Edit (f data)) → I e → I (e.editElement id f)
  /-- Texts that code gives to a node. -/
  text : ∀ {e : Engine} (id : NodeId) (text : String), I e → I (e.setNodeText id text)

/-- Evaluation breaks neither of two invariants. -/
theorem EvaluationClosed.and {readers : NodeId → Prop} {I J : Engine → Prop}
    (h : EvaluationClosed readers I) (h' : EvaluationClosed readers J) :
    EvaluationClosed readers fun e => I e ∧ J e where
  outside he hnodes hshot hroot hentries :=
    ⟨h.outside he.1 hnodes hshot hroot hentries, h'.outside he.2 hnodes hshot hroot hentries⟩
  quiet hf he := ⟨h.quiet hf he.1, h'.quiet hf he.2⟩
  track owner name hnode he := ⟨h.track owner name hnode he.1, h'.track owner name hnode he.2⟩
  purge id he := ⟨h.purge id he.1, h'.purge id he.2⟩
  edit id _ hf he := ⟨h.edit id hf he.1, h'.edit id hf he.2⟩
  text id text he := ⟨h.text id text he.1, h'.text id text he.2⟩

namespace EvaluationClosed

variable {readers : NodeId → Prop} {I : Engine → Prop} (h : EvaluationClosed readers I) {e : Engine}
include h

/-- Changing a component instance. -/
theorem modifyContext {id : NodeId} {f : ContextData → ContextData}
    (hf : ∀ data, (f data).skeleton = data.skeleton) (hindex : ∀ data, (f data).index = data.index)
    (hrun : ∀ data, data.executed = true → (f data).executed = true) (he : I e) :
    I (e.modifyContext id f) := by
  refine h.quiet (fun n _ => ⟨?_, RenderNode.quiet_modifyContext (fun data => ?_) hindex hrun⟩) he
  · simp only [RenderNode.skeleton, RenderKind.skeleton_modifyContext hf]
  · exact congrArg (·.name) (hf data)

/-- Changing the expression of an element's text. -/
theorem modifyTextExpr (id : NodeId) (text : Option DynamicExpr) (he : I e) :
    I (e.modifyElement id fun data => { data with textExpr := text }) := by
  refine h.quiet (fun n _ => ⟨?_, RenderNode.quiet_kind ?_ ?_ ?_⟩) he
  · simp only [RenderNode.skeleton,
      RenderKind.skeleton_modifyElement (f := fun data => { data with textExpr := text })
        fun _ => rfl]
  · exact RenderKind.index?_modifyElement _ _
  · cases n.kind <;> rfl
  · exact (RenderKind.hasRun_modifyElement _ _).trans

/-- Recording a read of a site. -/
theorem trackAt {site : Site} (hsite : site.ReadsFor readers) (owner : NodeId) (name : String)
    (he : I e) : I (e.trackAt site owner name) := by
  unfold Engine.trackAt
  split
  · exact he
  · rename_i node hnode
    exact h.track owner name (hsite node hnode) he

/-- Writing a variable. -/
theorem writeVar (owner : NodeId) (name : String) (v : Value) (he : I e) :
    I (e.writeVar owner name v) := by
  unfold Engine.writeVar
  split
  · exact he
  · split
    · exact he
    · rename_i data _ scope _
      have hscope : I (e.modifyContext owner fun data => { data with scope := scope }) :=
        h.modifyContext (fun _ => rfl) (fun _ => rfl) (fun _ h => h) he
      dsimp only
      split
      · exact h.outside hscope rfl rfl rfl rfl
      · exact hscope

/-- Writing a variable that nothing has read. -/
theorem initVar (owner : NodeId) (name : String) (v : Value) (he : I e) :
    I (e.initVar owner name v) := h.modifyContext (fun _ => rfl) (fun _ => rfl) (fun _ h => h) he

/-- Naming a node. -/
theorem bindRef (ctx : NodeId) (name : String) (id : NodeId) (he : I e) :
    I (e.bindRef ctx name id) :=
  h.quiet (fun _ _ => ⟨rfl, ⟨rfl, rfl, rfl, rfl, rfl, fun h => h⟩⟩)
    (h.modifyContext (fun _ => rfl) (fun _ => rfl) (fun _ h => h) he)

/-- Adding a frame. -/
theorem addFrame (parent : Option FrameId) (bindings : List (String × Value)) (he : I e) :
    I (e.addFrame parent bindings).2 := h.outside he rfl rfl rfl rfl

/-- Sending a message. -/
theorem send (m : Message) (he : I e) : I (e.send m) := h.outside he rfl rfl rfl rfl

/-- Recording a problem. -/
theorem diagnose (ctx : NodeId) (node : Option NodeId) (message : String) (line : Option Nat)
    (he : I e) : I (e.diagnose ctx node message line) := h.outside he rfl rfl rfl rfl

/-- Asking the consumer. -/
theorem request (id : NodeId) (kind : RequestKind) (he : I e) : I (e.request id kind).2 := by
  unfold Engine.request
  split
  · exact he
  · exact h.send _ he

/-- Translating a text. -/
theorem localizeText (text : String) (he : I e) : I (e.localizeText text).2 := by
  unfold Engine.localizeText
  split
  · dsimp only
    split
    · exact h.outside he rfl rfl rfl rfl
    · exact he
  · exact he

/-- Asking the token. -/
theorem poll (he : I e) : I e.poll.2 := h.outside he rfl rfl rfl rfl

/-- Looking up a name. -/
theorem lookupAt {site : Site} (hsite : site.ReadsFor readers) (name : String) (he : I e) :
    I (e.lookupAt site name).2 := by
  unfold Engine.lookupAt
  split
  · exact he
  · split
    · exact he
    · split
      · exact h.trackAt hsite _ name he
      · exact h.trackAt hsite _ name he

/-- Taking a member of a value. -/
theorem memberAt {site : Site} (hsite : site.ReadsFor readers) (target : Value) (name : String)
    (he : I e) : I (e.memberAt site target name).2 := by
  unfold Engine.memberAt
  split
  · exact he
  · dsimp only
    split
    · exact he
    · split
      · exact h.trackAt hsite _ name he
      · exact he

/-- Changing the classes that code has added. -/
theorem editClasses (id : NodeId) (f : List String → List String) (he : I e) :
    I (e.editClasses id f) := h.edit id (fun _ => ⟨rfl, rfl, fun h => ⟨h.attrs, h.style, h.data⟩⟩) he

/-- Recording an edit of an element. -/
theorem editOverlay (id : NodeId) (f : ElementOverlay → ElementOverlay) (he : I e) :
    I (e.editOverlay id f) := h.edit id (fun _ => ⟨rfl, rfl, fun h => h.overlay _⟩) he

/-- Binding a name of a frame again. -/
theorem rebindFrame (frame : FrameId) (name : String) (v : Value) (he : I e) :
    I (e.rebindFrame frame name v).2 := h.outside he rfl rfl rfl rfl

end EvaluationClosed

section

variable {I : Engine → Prop} {e : Engine}
  (h : ∀ {e : Engine} {id : NodeId} {f : RenderNode → RenderNode},
    (∀ n, e.node? id = some n → n.Still (f n)) → I e → I (e.modifyNode id f))
include h

/-- Changing a component instance, as far as it was not built so. -/
theorem keeps_modifyContext {id : NodeId} {f : ContextData → ContextData}
    (hf : ∀ data, (f data).skeleton = data.skeleton)
    (hrun : ∀ data, data.executed = true → (f data).executed = true) (he : I e) :
    I (e.modifyContext id f) := h (fun n _ => n.still_modifyContext hf hrun) he

/-- Recording a read leaves skeletons and pictures. -/
theorem keeps_track (owner : NodeId) (name : String) (node : NodeId) (he : I e) :
    I (e.track owner name node) := by
  unfold track
  split
  · refine h (fun n _ => ?_) (keeps_modifyContext h (fun _ => rfl) (fun _ h => h) he)
    split <;> exact ⟨rfl, rfl, fun h => h⟩
  · exact he

/-- Dropping the records of the reads of a node leaves skeletons and pictures. -/
theorem keeps_purge (id : NodeId) (he : I e) : I (e.purge id) := by
  unfold purge
  split
  · exact he
  · rename_i n hn
    refine List.foldlRecOn n.watchers _ ?_ fun e he owner _ => ?_
    · exact h (fun _ _ => ⟨rfl, rfl, fun h => h⟩) he
    · exact keeps_modifyContext h (fun _ => rfl) (fun _ h => h) he

end

/-- An invariant that evaluation cannot break because it survives all changes that leave skeletons. -/
structure EvaluationStable (I : Engine → Prop) : Prop where
  /-- Changes outside of the tree. -/
  outside : ∀ {e e' : Engine}, I e → e'.nodes = e.nodes → e'.shot = e.shot →
    e'.root = e.root → e'.entries = e.entries → I e'
  /-- Changes of a node that leave its skeleton. -/
  node : ∀ {e : Engine} {id : NodeId} {f : RenderNode → RenderNode},
    (∀ n, e.node? id = some n → (f n).skeleton = n.skeleton) → I e → I (e.modifyNode id f)
  /-- Reports of changed nodes. -/
  report : ∀ {e : Engine} {id : NodeId}, I e → I (e.report id)

namespace EvaluationStable

variable {I : Engine → Prop} (h : EvaluationStable I) {e : Engine}
include h

/-- Changing an element. -/
theorem modifyElement {id : NodeId} {f : ElementData → ElementData}
    (hf : ∀ data, (f data).skeleton = data.skeleton) (he : I e) : I (e.modifyElement id f) :=
  h.node (fun n _ => by
    simp only [RenderNode.skeleton, RenderKind.skeleton_modifyElement hf]) he

/-- Changing a component instance. -/
theorem modifyContext {id : NodeId} {f : ContextData → ContextData}
    (hf : ∀ data, (f data).skeleton = data.skeleton) (he : I e) : I (e.modifyContext id f) :=
  h.node (fun n _ => by
    simp only [RenderNode.skeleton, RenderKind.skeleton_modifyContext hf]) he

/-- Recording a read. -/
theorem track (owner : NodeId) (name : String) (node : NodeId) (he : I e) :
    I (e.track owner name node) :=
  keeps_track (fun hf he => h.node (fun n hn => (hf n hn).skeleton) he) _ _ _ he

/-- Dropping the records of the reads of a node. -/
theorem purge (id : NodeId) (he : I e) : I (e.purge id) :=
  keeps_purge (fun hf he => h.node (fun n hn => (hf n hn).skeleton) he) id he

/-- Changing what an element shows. -/
theorem editElement (id : NodeId) {f : ElementData → ElementData}
    (hf : ∀ data, (f data).skeleton = data.skeleton) (he : I e) : I (e.editElement id f) := by
  unfold Engine.editElement
  split
  · exact he
  · dsimp only
    split
    · exact h.report (h.modifyElement hf he)
    · exact h.modifyElement hf he

/-- Setting the text of a node. -/
theorem setNodeText (id : NodeId) (text : String) (he : I e) : I (e.setNodeText id text) := by
  unfold Engine.setNodeText
  split
  · exact he
  · rename_i n hn
    split
    · split
      · exact he
      · exact h.report (h.modifyElement (fun _ => rfl) he)
    · rename_i data hkind
      split
      · exact he
      · refine h.report (h.node (fun n' hn' => ?_) he)
        rw [hn] at hn'
        cases hn'
        simp only [RenderNode.skeleton, hkind, RenderKind.skeleton]
    · exact he

/-- Showing a state. -/
theorem showState (id : NodeId) (state : ElementState) (he : I e) : I (e.showState id state).2 := by
  unfold Engine.showState
  split
  · exact he
  · exact h.modifyElement (fun _ => rfl) he

/-- Showing a text. -/
theorem showText (id : NodeId) (text : String) (he : I e) : I (e.showText id text).2 := by
  unfold Engine.showText
  split
  · rename_i data hdata
    refine h.node (fun n hn => ?_) he
    rw [hn] at hdata
    simp only [Option.map_some, Option.some.injEq] at hdata
    simp only [RenderNode.skeleton, hdata, RenderKind.skeleton]
  · exact he

/-- An invariant that survives all changes that leave skeletons survives those of evaluation. -/
theorem closed (readers : NodeId → Prop) : EvaluationClosed readers I where
  outside he hnodes hshot hroot hentries := h.outside he hnodes hshot hroot hentries
  quiet hf he := h.node (fun n hn => (hf n hn).1) he
  track owner name _ he := h.track owner name _ he
  purge id he := h.purge id he
  edit id _ hf he := h.editElement id (fun data => (hf data).skeleton) he
  text id text he := h.setNodeText id text he

/-- Such an invariant survives evaluation for any node. -/
theorem tracking : EvaluationClosed (fun _ => True) I := h.closed _

end EvaluationStable

end Engine

/-! ## Intrinsics -/

/-- What code enters from inside keeps an invariant. -/
structure Reentry.EntersKeeping (re : Reentry) (I : Engine → Prop) : Prop where
  /-- Rebuilding a context. -/
  rebuild : ∀ name ctx, RenderM.Keeps I (Intrinsic.enter name (re.rebuild ctx))
  /-- Updating a node. -/
  update : ∀ name id, RenderM.Keeps I (Intrinsic.enter name (re.update id))

/-- What code enters keeps two invariants. -/
theorem Reentry.EntersKeeping.and {re : Reentry} {I J : Engine → Prop} (h : re.EntersKeeping I)
    (h' : re.EntersKeeping J) : re.EntersKeeping fun e => I e ∧ J e where
  rebuild name ctx _ _ _ hgives he :=
    ⟨h.rebuild name ctx hgives he.1, h'.rebuild name ctx hgives he.2⟩
  update name id _ _ _ hgives he := ⟨h.update name id hgives he.1, h'.update name id hgives he.2⟩

namespace Intrinsic

variable {I : Engine → Prop} {readers : NodeId → Prop}

/-- A change that an intrinsic makes if its arguments are right. -/
theorem change_stable {β : Type} {e : Engine} {args : Outcome β} {f : β → Outcome Engine}
    (he : I e) (hf : ∀ b e', f b = .ok e' → I e') : I (change e (args >>= f)).2 := by
  cases args with
  | error err => exact he
  | ok b =>
    cases hb : f b with
    | error err => simpa only [change, bind, Except.bind, hb] using he
    | ok e' => simpa only [change, bind, Except.bind, hb] using hf b e' hb

/-- An edit of the target of an intrinsic. -/
theorem edit_stable {e : Engine} (site : Site) (name : String) (args : List Value)
    {f : NodeId × String × Value → Outcome Engine} (he : I e)
    (hf : ∀ id text v, ∃ e', f (id, text, v) = .ok e' ∧ I e') :
    I (change e (edit e site name args >>= f)).2 := by
  refine change_stable he fun p e' heq => ?_
  obtain ⟨id, text, v⟩ := p
  obtain ⟨e₁, h₁, he₁⟩ := hf id text v
  rw [h₁] at heq
  cases heq
  exact he₁

variable (h : Engine.EvaluationClosed readers I)
include h

/-- Asking the consumer about the target. -/
theorem ask_stable {e : Engine} (site : Site) (name : String) (args : List Value)
    (kind : RequestKind) (he : I e) : I (ask e site name args kind).2 := by
  unfold ask
  split
  · exact he
  · exact h.request _ kind he

/-- The intrinsics that build and update nothing. -/
theorem callPure_stable {e : Engine} (site : Site) (name : String) (args : List Value)
    (he : I e) : I (callPure e site name args).2 := by
  unfold callPure
  split
  · exact edit_stable site _ args he fun id _ _ => ⟨_, rfl, h.editClasses id _ he⟩
  · exact edit_stable site _ args he fun id _ _ => ⟨_, rfl, h.editClasses id _ he⟩
  · exact edit_stable site _ args he fun id _ _ => ⟨_, rfl, h.editClasses id _ he⟩
  · exact edit_stable site _ args he fun id text _ => ⟨_, rfl, h.text id text he⟩
  · exact edit_stable site _ args he fun id _ _ => ⟨_, rfl, h.editOverlay id _ he⟩
  · exact edit_stable site _ args he fun id _ _ => ⟨_, rfl, h.editOverlay id _ he⟩
  · refine change_stable he fun p e' heq => ?_
    cases heq
    exact h.editOverlay p.1 _ he
  · split
    · exact he
    · exact h.send _ he
  · exact h.send _ he
  · exact ask_stable h site _ args _ he
  · exact ask_stable h site _ args _ he
  · exact ask_stable h site _ args _ he
  · exact he

/-- Calling an intrinsic. -/
theorem call_keeps {re : Reentry} (hre : re.EntersKeeping I) (site : Site) (name : String)
    (args : List Value) : RenderM.Keeps I (call re site name args) := by
  intro e a e' hgives he
  obtain ⟨e₀, e₁, hget, hrest⟩ := RenderM.gives_bind.1 hgives
  obtain ⟨rfl, rfl⟩ := RenderM.gives_get.1 hget
  split at hrest
  · split at hrest
    · exact RenderM.keeps_pure _ hrest he
    · exact hre.rebuild _ _ hrest he
  · split at hrest
    · exact RenderM.keeps_pure _ hrest he
    · exact hre.update _ _ hrest he
  · obtain ⟨_, e₂, hset, hpure⟩ := RenderM.gives_bind.1 hrest
    rw [RenderM.gives_set] at hset
    obtain ⟨-, rfl⟩ := RenderM.gives_pure.1 hpure
    rw [hset]
    exact callPure_stable h site name args he

end Intrinsic

/-! ## Code -/

/-- Keeping an invariant, as a relation between computations that looks at one side only. -/
def keepsCorrespondence (I : Engine → Prop) : Correspondence RenderM RenderM where
  rel x _ := x.Keeps I
  rel_pure a := RenderM.keeps_pure a
  rel_bind hx hf := RenderM.keeps_bind hx hf
  rel_map f hx := RenderM.keeps_bind hx fun a => RenderM.keeps_pure (f a)

section

variable {readers : NodeId → Prop} {I : Engine → Prop} (h : Engine.EvaluationClosed readers I)
  {re : Reentry} (hre : re.EntersKeeping I)
include h hre

/-- The operations of the tree as an environment. -/
theorem Site.env_keeps {site : Site} (hsite : site.ReadsFor readers) :
    (site.env re).Related (keepsCorrespondence I) (site.env re) where
  lookup name := RenderM.keeps_step fun _ he => h.lookupAt hsite name he
  has _ := RenderM.keeps_step fun _ he => he
  assign name v := RenderM.keeps_step fun _ he => h.writeVar _ name v he
  this := RenderM.keeps_pure _
  member target name := RenderM.keeps_step fun _ he => h.memberAt hsite target name he
  isIntrinsic _ := rfl
  callIntrinsic name args := Intrinsic.call_keeps h hre site name args
  interrupted := RenderM.keeps_step fun _ he => h.poll he
  freshSerial := RenderM.keeps_step fun _ he => h.outside he rfl rfl rfl rfl

namespace Render

/-! ## Expressions and hooks -/

omit hre in
/-- Recording the failure of an evaluation. -/
theorem recover_keeps (outcome : Except EvalError Value) (ctx : NodeId) (node : Option NodeId) :
    (recover outcome ctx node).Keeps I := by
  unfold recover
  split
  · exact Act.keeps_pure _
  · rename_i err
    have hrest : Act.Keeps I (do
        Act.change (·.diagnose ctx node err.cause.message err.line)
        return Value.null) :=
      Act.keeps_bind (Act.keeps_change fun _ he => h.diagnose _ _ _ _ he) fun _ =>
        Act.keeps_pure _
    split
    · exact Act.keeps_bind (Act.keeps_throw _) fun _ => hrest
    · exact hrest

/-- Evaluating an expression. -/
theorem evaluateAt_keeps {site : Site} (hsite : site.ReadsFor readers) (e : DynamicExpr) :
    (evaluateAt re site e).Keeps I := by
  refine Act.keeps_bind (Act.keeps_lift ?_) fun outcome => recover_keeps h _ _ _
  exact Interpreter.eval_related (Site.env_keeps h hre hsite) e.expr

/-- Evaluating the operand of an attribute. -/
theorem operandAt_keeps {site : Site} (hsite : site.ReadsFor readers) (v : AttrValue) :
    (operandAt re site v).Keeps I := by
  cases v with
  | empty => exact Act.keeps_pure _
  | literal s => exact Act.keeps_pure _
  | dynamic e => exact evaluateAt_keeps h hre hsite e

/-- Calling a function. -/
theorem invoke_keeps (ctx : NodeId) (this : Option NodeId) (f : Value) (args : List Value) :
    (invoke re ctx this f args).Keeps I := by
  refine Act.keeps_bind (Act.keeps_lift ?_) fun outcome => ?_
  · exact Interpreter.callValue_related
      (Site.env_keeps h hre (Site.readsFor_untracked ctx none this)) f args
  · cases outcome with
    | ok v => exact Act.keeps_pure v
    | error err =>
      dsimp only
      split
      · exact Act.keeps_throw _
      · exact Act.keeps_throw _

/-- Calling a function and recording its failure. -/
theorem invokeSafely_keeps (ctx : NodeId) (this : Option NodeId) (f : Value) (args : List Value) :
    (invokeSafely re ctx this f args).Keeps I := by
  refine Act.keeps_tryCatch (invoke_keeps h hre ctx this f args) fun err => ?_
  cases err with
  | eval err =>
    exact Act.keeps_bind (Act.keeps_change fun _ he => h.diagnose _ _ _ _ he) fun _ =>
      Act.keeps_pure _
  | _ => exact Act.keeps_throw _

/-- Calling the function of a name. -/
theorem callHook_keeps (ctx : NodeId) (this : Option NodeId) (name : String) (args : List Value) :
    (callHook re ctx this name args).Keeps I := by
  refine Act.keeps_bind (Act.keeps_read _) fun found => ?_
  cases found with
  | some f => exact invokeSafely_keeps h hre ctx this f args
  | none => exact Act.keeps_bind (Act.keeps_read _) fun _ => Act.keeps_throw _

/-- Calling the function of a name, which may be missing. -/
theorem callHookSafely_keeps (ctx : NodeId) (this : Option NodeId) (name : String)
    (args : List Value) : (callHookSafely re ctx this name args).Keeps I := by
  refine Act.keeps_tryCatch (Act.keeps_discard (callHook_keeps h hre ctx this name args))
    fun err => ?_
  cases err with
  | hookNotFound context hook => exact Act.keeps_change fun _ he => h.diagnose _ _ _ _ he
  | _ => exact Act.keeps_throw _

/-- Calling a function that a context defines itself. -/
theorem callOwnHook_keeps (ctx : NodeId) (this : Option NodeId) (name : String)
    (args : List Value) : (callOwnHook re ctx this name args).Keeps I := by
  refine Act.keeps_bind (Act.keeps_read _) fun found => ?_
  cases found with
  | some f => exact Act.keeps_discard (invokeSafely_keeps h hre ctx this f args)
  | none => exact Act.keeps_pure _

/-- Calling hooks in turn. -/
theorem runHooks_keeps (ctx id : NodeId) (hooks : List String) :
    (runHooks re ctx id hooks).Keeps I :=
  Act.keeps_forM fun hook _ => callHookSafely_keeps h hre ctx (some id) hook _

/-- Telling a context of a new node. -/
theorem processNode_keeps (ctx id : NodeId) : (processNode re ctx id).Keeps I :=
  callOwnHook_keeps h hre ctx (some id) _ _

/-- Evaluating bindings. -/
theorem bindingValues_keeps (cursor : Cursor) (bindings : List (String × AttrValue)) :
    (bindingValues re cursor bindings).Keeps I :=
  Act.keeps_mapM fun binding _ =>
    Act.keeps_bind (operandAt_keeps h hre (Site.readsFor_untracked _ _ _) binding.2) fun _ =>
      Act.keeps_pure _

/-! ## Elements and texts -/

section

variable {s : ElementSite} (hs : readers s.id)
include hs

/-- Evaluating the operand of an attribute of an element. -/
theorem operandFor_keeps (v : AttrValue) : (operandFor re s v).Keeps I := by
  cases v with
  | empty => exact Act.keeps_pure _
  | literal text => exact Act.keeps_pure _
  | dynamic e => exact evaluateAt_keeps h hre (Site.readsFor_ofNode hs _ _ _) e

/-- Evaluating an attribute that is a truth value. -/
theorem flagFor_keeps (v : AttrValue) : (flagFor re s v).Keeps I := by
  cases v with
  | empty => exact Act.keeps_pure _
  | literal text => exact Act.keeps_pure _
  | dynamic e => exact operandFor_keeps h hre hs (.dynamic e)

/-- Evaluating an attribute that is a text. -/
theorem textFor_keeps (v : AttrValue) : (textFor? re s v).Keeps I := by
  cases v with
  | dynamic e => exact Act.keeps_bind (operandFor_keeps h hre hs _) fun _ => Act.keeps_pure _
  | _ => exact Act.keeps_pure _

omit hre in
/-- Reading a variable. -/
theorem variableFor_keeps (name : String) (tracked : Bool) : (variableFor s name tracked).Keeps I :=
  Act.keeps_step fun _ he => h.lookupAt (Site.readsFor_ofNode hs _ _ tracked) name he

omit hre in
/-- Reading a bound variable. -/
theorem boundValue_keeps (name : String) : (boundValue s name).Keeps I := by
  refine Act.keeps_bind (variableFor_keeps h hs name true) fun found => ?_
  cases found with
  | some v => exact Act.keeps_pure v
  | none =>
    exact Act.keeps_bind (Act.keeps_change fun _ he => h.initVar _ _ _ he) fun _ =>
      Act.keeps_pure _

/-- Applying an attribute. -/
theorem applyAction_keeps (state : ElementState) (action : AttrAction) :
    (applyAction re s state action).Keeps I := by
  cases action with
  | plain name v =>
    exact Act.keeps_bind (textFor_keeps h hre hs v) fun _ => Act.keeps_pure _
  | classSwitch name v =>
    cases v with
    | empty => exact Act.keeps_bind (variableFor_keeps h hs _ _) fun _ => Act.keeps_pure _
    | literal key => exact Act.keeps_bind (variableFor_keeps h hs _ _) fun _ => Act.keeps_pure _
    | dynamic e =>
      exact Act.keeps_bind (Act.keeps_map (operandFor_keeps h hre hs _)) fun _ =>
        Act.keeps_pure _
  | styleEntry property v =>
    exact Act.keeps_bind (operandFor_keeps h hre hs v) fun _ => Act.keeps_pure _
  | bindValue name => exact Act.keeps_bind (boundValue_keeps h hs name) fun _ => Act.keeps_pure _
  | dynamicSet name v =>
    exact Act.keeps_bind (flagFor_keeps h hre hs v) fun _ => Act.keeps_pure _
  | data name v => exact Act.keeps_bind (operandFor_keeps h hre hs v) fun _ => Act.keeps_pure _
  | asset attr v =>
    refine Act.keeps_bind (textFor_keeps h hre hs v) fun path => ?_
    cases path with
    | none => exact Act.keeps_pure _
    | some path => exact Act.keeps_bind (Act.keeps_read _) fun _ => Act.keeps_pure _
  | style v => exact Act.keeps_bind (operandFor_keeps h hre hs v) fun _ => Act.keeps_pure _
  | classes v => exact Act.keeps_bind (textFor_keeps h hre hs v) fun _ => Act.keeps_pure _
  | type v => exact Act.keeps_bind (textFor_keeps h hre hs v) fun _ => Act.keeps_pure _
  | value v => exact Act.keeps_bind (operandFor_keeps h hre hs v) fun _ => Act.keeps_pure _
  | localize v => exact Act.keeps_bind (flagFor_keeps h hre hs v) fun _ => Act.keeps_pure _
  | _ => exact Act.keeps_pure _

/-- Evaluating the text of an element. -/
theorem applyText_keeps (state : ElementState) (text : Option DynamicExpr) :
    (applyText re s state text).Keeps I := by
  cases text with
  | none => exact Act.keeps_pure _
  | some e =>
    refine Act.keeps_bind (evaluateAt_keeps h hre (Site.readsFor_ofNode hs _ _ _) e) fun v => ?_
    refine Act.keeps_bind (Act.keeps_step fun _ he => h.localizeText _ he) fun _ => ?_
    exact Act.keeps_pure _

end

/-- Compute the state of an element without showing it. -/
def elementState (re : Reentry) (id : NodeId) (n : RenderNode) (data : ElementData) :
    Act ElementState := do
  let s : ElementSite := ⟨id, n.context, n.frame, n.flags.reactive⟩
  let state ← data.actions.foldlM (applyAction re s) (initialState data)
  return data.overlay.apply (← applyText re s state data.textExpr)

/-- Computing the state of an element. -/
theorem elementState_keeps {id : NodeId} (hid : readers id) (n : RenderNode) (data : ElementData) :
    (elementState re id n data).Keeps I := by
  refine Act.keeps_bind (Act.keeps_foldlM ?_ _) fun state => ?_
  · exact fun state action _ => applyAction_keeps h hre hid state action
  · exact Act.keeps_bind (applyText_keeps h hre hid state _) fun _ => Act.keeps_pure _

omit h hre in
/-- An action switches a class, or none. -/
theorem applyAction_switches (re : Reentry) (s : ElementSite) (state : ElementState)
    (action : AttrAction) : (applyAction re s state action).Returns fun state' =>
      state'.switches.keys =
        (OrderedSet.insertAll ⟨state.switches.keys⟩ action.switch?.toList).toList := by
  cases action with
  | classSwitch name v =>
    have hkeys (on : Bool) : (state.switches.insert name on).keys =
        (OrderedSet.insert ⟨state.switches.keys⟩ name).toList := by
      rw [OrderedMap.keys_insert]
      unfold OrderedSet.insert OrderedSet.contains
      simp only [List.contains_eq_mem, decide_eq_true_eq]
      split <;> rfl
    cases v with
    | empty => exact Act.returns_bind fun on => Act.returns_pure (hkeys _)
    | literal key => exact Act.returns_bind fun on => Act.returns_pure (hkeys _)
    | dynamic e => exact Act.returns_bind fun on => Act.returns_pure (hkeys _)
  | asset attr v =>
    refine Act.returns_bind fun path => ?_
    cases path with
    | none => exact Act.returns_pure rfl
    | some path => exact Act.returns_bind fun _ => Act.returns_pure rfl
  | styleEntry property v =>
    refine Act.returns_bind fun v => Act.returns_pure ?_
    unfold ElementState.setStyle
    split <;> rfl
  | style v =>
    refine Act.returns_bind fun v => Act.returns_pure ?_
    unfold ElementState.setStyles
    split <;> rfl
  | dynamicSet name v =>
    refine Act.returns_bind fun v => Act.returns_pure ?_
    unfold ElementState.setDynamic ElementState.setAttr
    repeat' split
    all_goals rfl
  | plain name v => exact Act.returns_bind fun _ => Act.returns_pure rfl
  | bindValue name => exact Act.returns_bind fun _ => Act.returns_pure rfl
  | data name v => exact Act.returns_bind fun _ => Act.returns_pure rfl
  | classes v => exact Act.returns_bind fun _ => Act.returns_pure rfl
  | type v => exact Act.returns_bind fun _ => Act.returns_pure rfl
  | value v => exact Act.returns_bind fun _ => Act.returns_pure rfl
  | localize v => exact Act.returns_bind fun _ => Act.returns_pure rfl
  | _ => exact Act.returns_pure rfl

omit h hre in
/-- An action keeps a state tidy. -/
theorem applyAction_tidy (re : Reentry) (s : ElementSite) {state : ElementState} (h : state.Tidy)
    (action : AttrAction) : (applyAction re s state action).Returns ElementState.Tidy := by
  have hsame {state' : ElementState} (hattrs : state'.attrs = state.attrs)
      (hstyle : state'.style = state.style) (hdata : state'.data = state.data) : state'.Tidy :=
    ⟨by rw [hattrs]; exact h.attrs, by rw [hstyle]; exact h.style, by rw [hdata]; exact h.data⟩
  cases action with
  | plain name v => exact Act.returns_bind fun _ => Act.returns_pure (h.setAttr _ _)
  | styleEntry property v => exact Act.returns_bind fun _ => Act.returns_pure (h.setStyle _ _)
  | style v => exact Act.returns_bind fun _ => Act.returns_pure (h.setStyles _)
  | dynamicSet name v => exact Act.returns_bind fun _ => Act.returns_pure (h.setDynamic _ _)
  | asset attr v =>
    refine Act.returns_bind fun path => ?_
    cases path with
    | none => exact Act.returns_pure h
    | some path => exact Act.returns_bind fun _ => Act.returns_pure (h.setAttr _ _)
  | classSwitch name v =>
    cases v with
    | _ => exact Act.returns_bind fun on => Act.returns_pure (hsame rfl rfl rfl)
  | bindValue name => exact Act.returns_bind fun _ => Act.returns_pure (hsame rfl rfl rfl)
  | data name v =>
    exact Act.returns_bind fun _ => Act.returns_pure ⟨h.attrs, h.style, h.data.insert _ _⟩
  | classes v => exact Act.returns_bind fun _ => Act.returns_pure (hsame rfl rfl rfl)
  | type v => exact Act.returns_bind fun _ => Act.returns_pure (hsame rfl rfl rfl)
  | value v => exact Act.returns_bind fun _ => Act.returns_pure (hsame rfl rfl rfl)
  | localize v => exact Act.returns_bind fun _ => Act.returns_pure (hsame rfl rfl rfl)
  | _ => exact Act.returns_pure h

omit h hre in
/-- The state that is computed for an element follows its actions. -/
theorem elementState_follows (re : Reentry) (id : NodeId) (n : RenderNode) (data : ElementData) :
    (elementState re id n data).Returns (·.Follows data.actions) := by
  have hfold (s : ElementSite) (actions : List AttrAction) (state : ElementState)
      (htidy : state.Tidy) : Act.Returns (actions.foldlM (applyAction re s) state) fun state' =>
        state'.Tidy ∧ state'.switches.keys = (OrderedSet.insertAll ⟨state.switches.keys⟩
          (actions.filterMap AttrAction.switch?)).toList := by
    induction actions generalizing state with
    | nil => exact Act.returns_pure ⟨htidy, rfl⟩
    | cons action actions ih =>
      rw [List.foldlM_cons]
      refine Act.returns_bind_of ((applyAction_tidy re s htidy action).and
        (applyAction_switches re s state action)) fun state₁ ⟨htidy₁, h₁⟩ => ?_
      intro e a e' hgives
      obtain ⟨htidy', hkeys⟩ := ih state₁ htidy₁ hgives
      refine ⟨htidy', ?_⟩
      rw [hkeys, h₁]
      unfold OrderedSet.insertAll
      rw [List.filterMap_cons]
      cases action.switch? <;> rfl
  have hinitial : (initialState data).Tidy :=
    ⟨List.nodup_nil, List.nodup_nil, List.nodup_nil⟩
  refine Act.returns_bind_of (hfold _ _ _ hinitial) fun state ⟨htidy, hstate⟩ => ?_
  have htext : (applyText re ⟨id, n.context, n.frame, n.flags.reactive⟩ state data.textExpr).Returns
      fun state' => state'.Tidy ∧ state'.switches = state.switches := by
    cases data.textExpr with
    | none => exact Act.returns_pure ⟨htidy, rfl⟩
    | some e =>
      exact Act.returns_bind fun _ => Act.returns_bind fun _ =>
        Act.returns_pure ⟨⟨htidy.attrs, htidy.style, htidy.data⟩, rfl⟩
  refine Act.returns_bind_of htext fun state' ⟨htidy', h⟩ => Act.returns_pure ?_
  refine ⟨htidy'.overlay _, ?_⟩
  change state'.switches.keys = _
  rw [h, hstate]
  rfl

omit h hre in
/-- What an element shows is computed first and shown at the very end. -/
theorem refreshElement_eq (re : Reentry) (id : NodeId) : refreshElement re id = do
    match ← Act.read (·.node? id) with
    | none => return false
    | some n =>
      match n.kind with
      | .element data => do
        let state ← elementState re id n data
        Act.step (·.showState id state)
      | _ => return false := by
  unfold refreshElement elementState
  refine bind_congr fun found => ?_
  cases found with
  | none => rfl
  | some n =>
    simp only [bind_assoc, pure_bind] <;> rfl

/-- Computing and showing the state of an element. -/
theorem refreshElement_keeps {id : NodeId} (hid : readers id)
    (hshow : ∀ {e n data state e'}, e.node? id = some n → n.kind = .element data →
      (elementState re id n data).Gives e (.ok state) e' → I e → I e' → I (e'.showState id state).2) :
    (refreshElement re id).Keeps I := by
  rw [refreshElement_eq]
  intro e r e' hgives he
  rcases Act.gives_bind.1 hgives with ⟨found, e₁, hread, hrest⟩ | ⟨err, herr, -⟩
  · obtain ⟨hfound, rfl⟩ := Act.gives_read.1 hread
    rw [Except.ok.inj hfound] at hrest
    cases hn : e₁.node? id with
    | none =>
      rw [hn] at hrest
      exact Act.keeps_pure _ hrest he
    | some n =>
      rw [hn] at hrest
      dsimp only at hrest
      split at hrest
      · rename_i data hkind
        rcases Act.gives_bind.1 hrest with ⟨state, e₂, hstate, hstep⟩ | ⟨err, herr, -⟩
        · obtain ⟨-, rfl⟩ := Act.gives_step.1 hstep
          exact hshow hn hkind hstate he (elementState_keeps h hre hid n data hstate he)
        · exact elementState_keeps h hre hid n data herr he
      · exact Act.keeps_pure _ hrest he
  · exact Act.keeps_read _ herr he

/-- Compute the text of a text node without showing it. -/
def nodeText (re : Reentry) (id : NodeId) (n : RenderNode) (e : DynamicExpr) : Act String := do
  let v ← evaluateAt re (.ofNode n.context n.frame id e.reactive) e
  Act.step (·.localizeText v.display)

/-- Computing the text of a text node. -/
theorem nodeText_keeps {id : NodeId} (hid : readers id) (n : RenderNode) (e : DynamicExpr) :
    (nodeText re id n e).Keeps I := by
  refine Act.keeps_bind (evaluateAt_keeps h hre (Site.readsFor_ofNode hid _ _ _) _) fun v => ?_
  exact Act.keeps_step fun _ he => h.localizeText _ he

omit h hre in
/-- The text of a text node is computed first and shown at the very end. -/
theorem refreshText_eq (re : Reentry) (id : NodeId) : refreshText re id = do
    match ← Act.read (·.node? id) with
    | none => return false
    | some n =>
      match n.kind with
      | .text ⟨_, some e⟩ => do
        let text ← nodeText re id n e
        Act.step (·.showText id text)
      | _ => return false := by
  unfold refreshText nodeText
  refine bind_congr fun found => ?_
  cases found with
  | none => rfl
  | some n =>
    simp only [bind_assoc]
    rfl

/-- Computing and showing the text of a text node. -/
theorem refreshText_keeps {id : NodeId} (hid : readers id)
    (hshow : ∀ e text, I e → I (e.showText id text).2) : (refreshText re id).Keeps I := by
  rw [refreshText_eq]
  refine Act.keeps_bind (Act.keeps_read _) fun found => ?_
  cases found with
  | none => exact Act.keeps_pure _
  | some n =>
    dsimp only
    split
    · exact Act.keeps_bind (nodeText_keeps h hre hid n _) fun text =>
        Act.keeps_step fun e he => hshow e text he
    · exact Act.keeps_pure _

/-- Naming an element and evaluating its scope attributes. -/
theorem prepareElement_keeps (id : NodeId) (cursor : Cursor) (actions : List AttrAction) :
    (prepareElement re id cursor actions).Keeps I := by
  induction actions with
  | nil => exact Act.keeps_pure _
  | cons action actions ih =>
    cases action with
    | ref name =>
      exact Act.keeps_bind (Act.keeps_change fun _ he => h.bindRef _ _ _ he) fun _ => ih
    | scope name v =>
      refine Act.keeps_bind (operandAt_keeps h hre (Site.readsFor_untracked _ _ _) v) fun _ => ?_
      exact Act.keeps_bind ih fun _ => Act.keeps_pure _
    | _ => exact ih

omit hre in
/-- Entering a frame. -/
theorem enterFrame_keeps (cursor : Cursor) (bindings : List (String × Value)) :
    (enterFrame cursor bindings).Keeps I := by
  unfold enterFrame
  split
  · exact Act.keeps_pure _
  · exact Act.keeps_bind (Act.keeps_step fun _ he => h.addFrame _ _ he) fun _ =>
      Act.keeps_pure _

/-- Giving an element a text of its own. -/
theorem setElementText_keeps {id : NodeId} (hid : readers id)
    (hshow : ∀ {e n data state e'}, e.node? id = some n → n.kind = .element data →
      (elementState re id n data).Gives e (.ok state) e' → I e → I e' → I (e'.showState id state).2)
    (htext : ∀ (e : Engine) (text : String), I e → I (e.modifyElement id fun data =>
      { data with state := { data.state with text := some text } })) (source : TextSource) :
    (setElementText re id source).Keeps I := by
  cases source with
  | literal text =>
    refine Act.keeps_bind (Act.keeps_step fun _ he => h.localizeText _ he) fun text => ?_
    exact Act.keeps_change fun e he => htext e text he
  | dynamic e =>
    refine Act.keeps_bind (Act.keeps_change fun _ he => ?_) fun _ => ?_
    · exact h.modifyTextExpr id _ he
    · exact Act.keeps_discard (refreshElement_keeps h hre hid hshow)

/-- Calling the final hooks of an element. -/
theorem finishElement_keeps (id : NodeId) : (finishElement re id).Keeps I := by
  refine Act.keeps_bind (Act.keeps_read _) fun found => ?_
  cases found with
  | none => exact Act.keeps_pure _
  | some n =>
    dsimp only
    split
    · exact runHooks_keeps h hre _ id _
    · exact Act.keeps_pure _

/-! ## Components -/

omit hre in
/-- Copying a variable of the caller. -/
theorem takeOver_keeps (owner : NodeId) (cursor : Cursor) (name : String) :
    (takeOver owner cursor name).Keeps I := by
  refine Act.keeps_change fun e he => ?_
  split
  · exact he
  · exact h.initVar _ _ _ he

/-- Applying the attributes of a reference. -/
theorem prepareContext_keeps {id : NodeId} (hid : readers id) (owner : NodeId) (cursor : Cursor)
    (actions : List AttrAction) : (prepareContext re id owner cursor actions).Keeps I := by
  have hinit (name : String) (v : AttrValue) {rest : Act (List (String × DynamicExpr))}
      (ih : rest.Keeps I) : Act.Keeps I (do
        let value ← operandAt re (.ofNode cursor.ctx cursor.frame id v.isReactive) v
        Act.change (·.initVar owner name value)
        let rest ← rest
        return (v.dynamic?.map fun e => (name, e)).toList ++ rest) := by
    refine Act.keeps_bind (operandAt_keeps h hre (Site.readsFor_ofNode hid _ _ _) v) fun _ => ?_
    refine Act.keeps_bind (Act.keeps_change fun _ he => h.initVar _ _ _ he) fun _ => ?_
    exact Act.keeps_bind ih fun _ => Act.keeps_pure _
  induction actions with
  | nil => exact Act.keeps_pure _
  | cons action actions ih =>
    cases action with
    | ref name =>
      exact Act.keeps_bind (Act.keeps_change fun _ he => h.bindRef _ _ _ he) fun _ => ih
    | cref name =>
      exact Act.keeps_bind (Act.keeps_change fun _ he => h.bindRef _ _ _ he) fun _ => ih
    | setFalse name =>
      exact Act.keeps_bind (Act.keeps_change fun _ he => h.initVar _ _ _ he) fun _ => ih
    | consume keys =>
      cases keys with
      | none => exact ih
      | some keys =>
        refine Act.keeps_bind (Act.keeps_read _) fun names => ?_
        exact Act.keeps_bind (Act.keeps_forM fun name _ => takeOver_keeps h owner cursor name)
          fun _ => ih
    | plain name v => exact hinit name v ih
    | scope name v => exact hinit name v ih
    | _ => exact ih

omit hre in
/-- Finding a component. -/
theorem resolveComponent_keeps (name : String) : (resolveComponent name).Keeps I :=
  Act.keeps_step fun _ he => h.outside he rfl rfl rfl rfl

/-- Calling the initial hook of a context. -/
theorem callInit_keeps (ctx : NodeId) : (callInit re ctx).Keeps I := by
  refine Act.keeps_bind (Act.keeps_read _) fun found => ?_
  cases found with
  | none => exact Act.keeps_pure _
  | some f =>
    refine Act.keeps_tryCatch ?_ fun err => ?_
    · exact Act.keeps_bind (invoke_keeps h hre ctx _ f []) fun _ => Act.keeps_pure _
    · cases err with
      | eval err =>
        exact Act.keeps_bind (Act.keeps_change fun _ he => h.diagnose _ _ _ _ he) fun _ =>
          Act.keeps_pure _
      | _ => exact Act.keeps_throw _

/-- Running a code block. -/
theorem runCodeBlock_keeps (body : List Stmt) (line : Nat) (cursor : Cursor) :
    (runCodeBlock re body line cursor).Keeps I := by
  have hrestart := callOwnHook_keeps h hre cursor.ctx (some cursor.ctx) "on_restart" []
  refine Act.keeps_bind (Act.keeps_read _) fun executed => ?_
  cases executed with
  | true => exact hrestart
  | false =>
    have hcode : Act.Keeps I (Act.evaluating (Interpreter.exec
        (Site.env re ⟨cursor.ctx, cursor.frame, some cursor.ctx, none⟩) line body)) :=
      Act.keeps_lift (Interpreter.exec_related
        (Site.env_keeps h hre (Site.readsFor_untracked _ _ _)) line body)
    refine Act.keeps_bind (Act.keeps_change fun _ he => ?_) fun _ => ?_
    · exact h.modifyContext (fun _ => rfl) (fun _ => rfl) (fun _ _ => rfl) he
    refine Act.keeps_bind hcode fun outcome => ?_
    refine Act.keeps_bind (Act.keeps_discard (recover_keeps h _ _ _)) fun _ => ?_
    refine Act.keeps_bind (callInit_keeps h hre _) fun goesOn => ?_
    cases goesOn with
    | true => exact hrestart
    | false =>
      refine Act.keeps_bind (Act.keeps_read _) fun _ => ?_
      exact Act.keeps_bind (Act.keeps_throw _) fun _ => hrestart

/-- Evaluating the attributes of a reference again. -/
theorem propagateSources_keeps {id : NodeId} (hid : readers id) (n : RenderNode)
    (data : ContextData) : (propagateSources re id n data).Keeps I := by
  unfold propagateSources
  split
  · exact Act.keeps_pure _
  · refine Act.keeps_bind (Act.keeps_change fun _ he => h.purge id he) fun _ => ?_
    refine Act.keeps_bind (Act.keeps_read _) fun owner => ?_
    refine Act.keeps_forM fun source _ => ?_
    refine Act.keeps_bind (evaluateAt_keeps h hre (Site.readsFor_ofNode hid _ _ _) _) fun v => ?_
    exact Act.keeps_change fun _ he => h.writeVar _ _ _ he

/-- Calling the action of a signal. -/
theorem fireSignal_keeps (ctx id : NodeId) (signal : SignalData) :
    (fireSignal re ctx id signal).Keeps I := by
  refine Act.keeps_bind (Act.keeps_read _) fun v => ?_
  exact callHookSafely_keeps h hre _ _ _ _

/-! ## Conditions, loops and sets -/

/-- Finding the branch whose condition holds. -/
theorem firstBranch_keeps (ctx : NodeId) (frame : Option FrameId) {id : NodeId} (hid : readers id)
    (reactive : Bool) (branches : List Branch) :
    ∀ index, (firstBranch re ctx frame id reactive index branches).Keeps I := by
  induction branches with
  | nil => exact fun _ => Act.keeps_pure _
  | cons branch branches ih =>
    intro index
    unfold firstBranch
    split
    · exact Act.keeps_pure _
    · refine Act.keeps_bind (evaluateAt_keeps h hre (Site.readsFor_ofNode hid _ _ _) _) fun v => ?_
      split
      · exact Act.keeps_pure _
      · exact ih (index + 1)

/-- Selecting a branch. -/
theorem selectBranch_keeps {id : NodeId} (hid : readers id) : (selectBranch re id).Keeps I := by
  refine Act.keeps_bind (Act.keeps_read _) fun found => ?_
  cases found with
  | none => exact Act.keeps_pure _
  | some n =>
    dsimp only
    split
    · exact firstBranch_keeps h hre _ _ hid _ _ 0
    · exact Act.keeps_pure _

/-- Evaluating the items of a loop. -/
theorem loopItems_keeps {id : NodeId} (hid : readers id) : (loopItems re id).Keeps I := by
  refine Act.keeps_bind (Act.keeps_read _) fun found => ?_
  cases found with
  | none => exact Act.keeps_pure _
  | some parts =>
    refine Act.keeps_bind (evaluateAt_keeps h hre (Site.readsFor_ofNode hid _ _ _) _) fun v => ?_
    split
    · exact Act.keeps_pure _
    · exact Act.keeps_bind (Act.keeps_change fun _ he => h.diagnose _ _ _ _ he) fun _ =>
        Act.keeps_pure _

/-- Evaluating the key of an item. -/
theorem loopKey_keeps (spec : LoopSpec) (cursor : Cursor) (item : Value) :
    (loopKey re spec cursor item).Keeps I := by
  unfold loopKey
  split
  · exact Act.keeps_pure _
  · refine Act.keeps_bind (Act.keeps_step fun _ he => h.addFrame _ _ he) fun frame => ?_
    exact Act.keeps_bind (evaluateAt_keeps h hre (Site.readsFor_untracked _ _ _) _) fun _ =>
      Act.keeps_pure _

/-- Evaluating the keys of the items of a loop. -/
theorem wantedItems_keeps (spec : LoopSpec) (cursor : Cursor) (items : List Value) :
    ∀ wanted, (wantedItems re spec cursor items wanted).Keeps I := by
  induction items with
  | nil => exact fun _ => Act.keeps_pure _
  | cons item items ih =>
    intro wanted
    exact Act.keeps_bind (loopKey_keeps h hre spec cursor item) fun _ => ih _

/-- Evaluating the value of a set. -/
theorem setValue_keeps {id : NodeId} (hid : readers id) : (setValue re id).Keeps I := by
  refine Act.keeps_bind (Act.keeps_read _) fun found => ?_
  cases found with
  | none => exact Act.keeps_pure _
  | some n =>
    dsimp only
    split
    · exact evaluateAt_keeps h hre (Site.readsFor_ofNode hid _ _ _) _
    · exact Act.keeps_pure _

/-- Evaluating the attributes of a carrier. -/
theorem carrierTexts_keeps (cursor : Cursor) (attrs : List (String × AttrValue)) :
    (carrierTexts re cursor attrs).Keeps I := by
  refine Act.keeps_mapM fun attr _ => ?_
  obtain ⟨name, v⟩ := attr
  cases v with
  | empty => exact Act.keeps_pure _
  | _ =>
    exact Act.keeps_bind (operandAt_keeps h hre (Site.readsFor_untracked _ _ _) _) fun _ =>
      Act.keeps_pure _

/-- Evaluating the name of a component. -/
theorem componentName_keeps (cursor : Cursor) (name : ComponentName) :
    (componentName re cursor name).Keeps I := by
  cases name with
  | fixed name => exact Act.keeps_pure _
  | dynamic e =>
    exact Act.keeps_bind (evaluateAt_keeps h hre (Site.readsFor_untracked _ _ _) e) fun _ =>
      Act.keeps_pure _

end Render
end
end ReactiveView
