import ReactiveView.Proofs.Compilation.Libraries
import ReactiveView.Proofs.Parsing.Trees
import ReactiveView.Proofs.Structure.Initialization

/-!
# The code of a context

A component instance notes that its code was run, and this is one note for all the code blocks of
its template. `Render.runs_code_once` says what follows. When the template is built for the first
time, its first code block is run and the initial hook decides whether building goes on. From then
on neither is done again for this instance, since no operation takes the note back
(`Engine.hasRun_closed`). The hook of a new start is called once for each code block, at the first
time and at every other.

So a template with one code block has its code run once, and its hook called once each time it is
built. The code of a second block and of those behind it is never run.
-/

namespace ReactiveView

/-! ## The note -/

namespace Engine

variable {ctx : NodeId} {e e' : Engine}

/-- The code of a context was run, or the context is gone for good. -/
def HasRun (ctx : NodeId) (e : Engine) : Prop :=
  e.nodes.Valid ∧ ((∃ n, e.node? ctx = some n ∧ n.kind.hasRun = true) ∨ e.nodes.Spent ctx)

namespace HasRun

/-- Only the nodes matter. -/
theorem congr (he : e.HasRun ctx) (hnodes : e'.nodes = e.nodes) : e'.HasRun ctx := by
  unfold HasRun node? at he ⊢
  rwa [hnodes]

/-- Changing a node that keeps the note. -/
theorem modifyNode (he : e.HasRun ctx) {id : NodeId} {f : RenderNode → RenderNode}
    (hf : ∀ n, e.node? id = some n → n.kind.hasRun = true → (f n).kind.hasRun = true) :
    (e.modifyNode id f).HasRun ctx := by
  refine ⟨he.1.modify id f, he.2.imp (fun ⟨n, hn, hrun⟩ => ?_) fun h => h.modify id f⟩
  rw [node?_modifyNode]
  split
  · next hid =>
    rw [hid] at hn
    exact ⟨f n, by rw [hn, Option.map_some], hf n hn hrun⟩
  · exact ⟨n, hn, hrun⟩

/-- Changing an element. -/
theorem modifyElement (he : e.HasRun ctx) (id : NodeId) (f : ElementData → ElementData) :
    (e.modifyElement id f).HasRun ctx :=
  he.modifyNode fun n _ => (RenderKind.hasRun_modifyElement f n.kind).trans

/-- Reports change no node. -/
theorem report (he : e.HasRun ctx) (id : NodeId) : (e.report id).HasRun ctx := by
  unfold Engine.report
  split
  · exact he
  · exact he

/-- The text of a node. -/
theorem setNodeText (he : e.HasRun ctx) (id : NodeId) (text : String) :
    (e.setNodeText id text).HasRun ctx := by
  unfold Engine.setNodeText
  split
  · exact he
  · next n hn =>
    split
    · split
      · exact he
      · exact (he.modifyElement id _).report id
    · next data hkind =>
      split
      · exact he
      · refine HasRun.report (he.modifyNode fun m hm hrun => ?_) id
        obtain rfl := Option.some.inj (hn.symm.trans hm)
        rw [hkind] at hrun
        cases hrun
    · exact he

/-- Showing a state. -/
theorem showState (he : e.HasRun ctx) (id : NodeId) (state : ElementState) :
    (e.showState id state).2.HasRun ctx := by
  unfold Engine.showState
  split
  · exact he
  · exact he.modifyElement id _

/-- A context with the note notes that its code was run. -/
theorem executed (he : e.HasRun ctx) : Render.executed e ctx = true := by
  unfold Render.executed context?
  obtain ⟨-, ⟨n, hn, hrun⟩ | hspent⟩ := he
  · rw [hn, Option.bind_some]
    revert hrun
    cases n.kind with
    | context data => exact id
    | _ => exact nofun
  · rw [node?, hspent.get?]
    rfl

end HasRun

/-- No operation takes the note back. -/
theorem hasRun_closed (ctx : NodeId) : OperationClosed (HasRun ctx) where
  outside he hnodes _ _ _ := he.congr hnodes
  enter he := he
  quiet id f hf he := he.modifyNode fun n hn => (hf n hn).hasRun
  drop id he := by
    refine keeps_drop (I := HasRun ctx) (fun hf he => he.modifyNode fun n hn => (hf n hn).hasRun)
      (fun {e id n} hn he => ⟨he.1.remove id, ?_⟩) id he
    by_cases hid : ctx = id
    · rw [hid]
      exact .inr (Arena.spent_remove he.1 hn)
    · refine he.2.imp (fun ⟨m, hm, hrun⟩ => ⟨m, ?_, hrun⟩) fun h => h.remove he.1 id
      change (e.nodes.remove id).2.get? ctx = some m
      rw [Arena.get?_remove, if_neg hid]
      exact hm
  track owner name _ _ he := keeps_track (I := HasRun ctx)
    (fun hf he => he.modifyNode fun n hn => (hf n hn).hasRun) owner name _ he
  purge id he := keeps_purge (I := HasRun ctx)
    (fun hf he => he.modifyNode fun n hn => (hf n hn).hasRun) id he
  edit id f _ he := by
    unfold editElement
    split
    · exact he
    · dsimp only
      split
      · exact (he.modifyElement id f).report id
      · exact he.modifyElement id f
  text id text he := he.setNodeText id text
  redraw := by
    intro _ e id state _ _ he
    unfold Engine.redraw
    split
    · exact (he.showState id state).report id
    · exact he.showState id state
  present _ _ _ he := he.showState _ _
  draw f _ hf he := he.modifyNode fun n hn => (hf n hn).hasRun
  update _ he := he
  insert n _ he := by
    refine ⟨he.1.insert n, he.2.imp (fun ⟨m, hm, hrun⟩ => ⟨m, ?_, hrun⟩) fun h => h.insert he.1 n⟩
    exact Arena.get?_insert_of_some he.1 hm n

/-- An engine becomes another one by parts of operations, and by whole ones, one after another. -/
inductive Later : Engine → Engine → Prop
  /-- Nothing was done yet. -/
  | refl (e : Engine) : Later e e
  /-- Part of an operation, that is anything that keeps what operations cannot break. -/
  | part {α : Type} {e e₁ e₂ : Engine} {x : Act α} {r : Except EngineError α}
      (hx : ∀ I : Engine → Prop, OperationClosed I → x.Keeps I) (first : x.Gives e r e₁)
      (rest : Later e₁ e₂) : Later e e₂
  /-- Operations of a host. -/
  | run {e e₁ e₂ : Engine} {ops : List Operation} {rs : List (Except EngineError Outcome)}
      (first : e.Runs ops rs e₁) (rest : Later e₁ e₂) : Later e e₂

/-- Reporting every node again takes no note back. -/
theorem HasRun.refresh (he : e.HasRun ctx) : e.refresh.HasRun ctx := by
  unfold Engine.refresh
  split
  · exact he
  · exact he

/-- The note stays. -/
theorem Later.hasRun (h : e.Later e') (he : e.HasRun ctx) : e'.HasRun ctx := by
  induction h with
  | refl e => exact he
  | part hx first _ ih => exact ih (hx _ (hasRun_closed ctx) first he)
  | run first _ ih =>
    exact ih (first.keeps (hasRun_closed ctx) (fun _ _ he => he) (fun _ _ _ _ he => he.refresh)
      (fun _ _ _ _ he => he) he)

end Engine

/-! ## Code blocks at the front -/

/-- What a node holds as a code block: statements, and the line that they begin on. -/
def Node.code? : Node → Option (List Stmt × Nat)
  | .code _ _ body line => some (body, line)
  | _ => none

/-- The code blocks at the top of a template. -/
def Node.codeBlocks (root : Node) : List (List Stmt × Nat) := root.children.filterMap code?

/-- What a step runs as a code block. -/
def Step.code? : Step → Option (List Stmt × Nat)
  | .code body line => some (body, line)
  | _ => none

/-- The step of a code block. -/
def Step.ofBlock (block : List Stmt × Nat) : Step := .code block.1 block.2

/-- A step that runs a code block is that of the block. -/
theorem Step.eq_of_code? {step : Step} {block : List Stmt × Nat} (h : step.code? = some block) :
    step = .ofBlock block := by
  cases step with
  | code body line =>
    obtain rfl := Option.some.inj h
    rfl
  | _ => cases h

/-- Steps that run code blocks are those of the blocks. -/
theorem Step.eq_map_ofBlock {steps : List Step} {blocks : List (List Stmt × Nat)}
    (h : steps.map code? = blocks.map some) : steps = blocks.map ofBlock := by
  induction blocks generalizing steps with
  | nil => exact List.map_eq_nil_iff.1 h
  | cons block blocks ih =>
    obtain ⟨step, rest, rfl, hstep, hrest⟩ := List.map_eq_cons_iff.1 h
    rw [ih hrest, List.map_cons, eq_of_code? hstep]

/-- A template as it stands, or compiled. -/
inductive Routine.Of (root : Node) : Routine → Prop
  /-- The template itself. -/
  | template (name : String) : Routine.Of root (.template name root)
  /-- The program that it is compiled to. -/
  | program (name hash : String) : Routine.Of root (.program (compile name root hash))

/-- What nodes hold as code blocks comes first if the code blocks do. -/
theorem Node.map_code? {nodes : List Node}
    (h : nodes = nodes.filter isCode ++ nodes.filter (!·.isCode)) :
    nodes.map code? = (nodes.filterMap code?).map some ++
      (nodes.filter (!·.isCode)).map fun _ => none := by
  have hblocks : nodes.filterMap code? = (nodes.filter isCode).filterMap code? := by
    rw [List.filterMap_filter]
    refine List.filterMap_congr fun n _ => ?_
    cases n <;> rfl
  have hcodes : (nodes.filter isCode).map code? =
      ((nodes.filter isCode).filterMap code?).map some := by
    rw [List.map_filterMap, ← List.filterMap_eq_map]
    refine List.filterMap_congr fun n hn => ?_
    have hcode := (List.mem_filter.1 hn).2
    cases n with
    | code header source body line => rfl
    | _ => cases hcode
  have hothers : (nodes.filter (!·.isCode)).map code? =
      (nodes.filter (!·.isCode)).map fun _ => none := by
    refine List.map_congr_left fun n hn => ?_
    have hcode := (List.mem_filter.1 hn).2
    cases n with
    | code header source body line => cases hcode
    | _ => rfl
  rw [hblocks, ← hcodes, ← hothers, ← List.map_append, ← h]

namespace Routine.Of

variable {root : Node} {routine : Routine}

/-- The steps of a template, compiled or not, run the code blocks of its nodes. -/
theorem map_code? (h : routine.Of root) :
    routine.body.steps.map Step.code? = root.children.map Node.code? := by
  have hnode (n : Node) : (Step.ofNode n).code? = n.code? := by cases n <;> rfl
  have hnorm (s : Step) : s.norm.code? = s.code? := by cases s <;> rfl
  have hnodes : (Body.nodes root.children).steps.map Step.code? = root.children.map Node.code? := by
    rw [Body.steps, List.map_map]
    exact List.map_congr_left fun n _ => hnode n
  cases h with
  | template name => exact hnodes
  | program name hash =>
    have hbody := congrArg Prod.snd (Routine.Compiled.mk name root hash).name_body
    have hsame := congrArg (List.map Step.code?) (Body.map_norm_steps hbody)
    simp only [List.map_map, Function.comp_def, hnorm] at hsame
    exact hsame.symm.trans hnodes

/-- The steps of code blocks come first, in the order of the blocks. -/
theorem steps_eq (h : routine.Of root)
    (hfirst : root.children = root.children.filter Node.isCode ++
      root.children.filter (!·.isCode)) :
    ∃ others, routine.body.steps = root.codeBlocks.map Step.ofBlock ++ others ∧
      ∀ step ∈ others, step.code? = none := by
  have hsteps := h.map_code?.trans (Node.map_code? hfirst)
  obtain ⟨codes, others, hsplit, hcodes, hothers⟩ := List.map_eq_append_iff.1 hsteps
  refine ⟨others, ?_, fun step hstep => ?_⟩
  · rw [hsplit, Step.eq_map_ofBlock hcodes]
    rfl
  · have hmem : step.code? ∈ others.map Step.code? := List.mem_map_of_mem hstep
    rw [hothers] at hmem
    obtain ⟨-, -, hnone⟩ := List.mem_map.1 hmem
    exact hnone.symm

end Routine.Of

/-! ## Building the code blocks -/

namespace Act

variable {α β : Type}

/-- Two operations that have the same outcomes do the same. -/
theorem runOn_ext {x y : Act α} {e : Engine} (h : ∀ r e', x.Gives e r e' ↔ y.Gives e r e') :
    x.runOn e = y.runOn e := Option.ext fun p => h p.1 p.2

/-- What follows on an operation matters only where that has led. -/
theorem runOn_bind_congr {x y : Act α} {f g : α → Act β} {e : Engine} (h : x.runOn e = y.runOn e)
    (hrest : ∀ a e₁, x.Gives e (.ok a) e₁ → (f a).runOn e₁ = (g a).runOn e₁) :
    (x >>= f).runOn e = (y >>= g).runOn e := by
  have hfirst (r : Except EngineError α) (e₁ : Engine) : x.Gives e r e₁ ↔ y.Gives e r e₁ := by
    unfold Gives
    rw [h]
  refine runOn_ext fun r e' => ?_
  rw [gives_bind, gives_bind]
  refine or_congr (exists₂_congr fun a e₁ => ?_) (exists_congr fun err => ?_)
  · rw [← hfirst]
    refine and_congr_right fun hx => ?_
    unfold Gives
    rw [hrest a e₁ hx]
  · rw [hfirst]

end Act

namespace Render

open Act Engine

variable (re : Reentry)

/-- Start a context: its first code block is run, then the initial hook is called, and then the hook
of a new start if the initial hook lets (`goOn`). For each block behind the first one only the hook
of a new start is called. -/
def startUp (c : Cursor) : List (List Stmt × Nat) → Act Unit
  | [] => pure ()
  | (body, line) :: blocks => do
    runCode re body line c
    goOn re c.ctx (← callInit re c.ctx)
    blocks.forM fun _ => restart re c.ctx

/-- Start a context that has been started before. -/
def startAnew (c : Cursor) (blocks : List (List Stmt × Nat)) : Act Unit :=
  blocks.forM fun _ => restart re c.ctx

/-- Build steps at a cursor, in order. -/
def buildSteps (steps : List Step) (c : Cursor) : Act Unit :=
  discard (steps.foldlM (runStep re) c)

/-- Building a body that has code blocks first. -/
theorem buildBody_eq {b : Body} {blocks : List (List Stmt × Nat)} {others : List Step}
    (hsteps : b.steps = blocks.map Step.ofBlock ++ others) (c : Cursor) :
    buildBody re b c = (do
      blocks.forM fun block => runCodeBlock re block.1 block.2 c
      buildSteps re others c) := by
  unfold buildBody buildSteps
  rw [hsteps]
  clear hsteps
  induction blocks with
  | nil => rfl
  | cons block blocks ih =>
    -- a code block hands the cursor on as it is
    have hblock : runStep re c (Step.ofBlock block) = (do
        runCodeBlock re block.1 block.2 c
        return c) := rfl
    have hdiscard (x : Act Cursor) : discard x = (fun _ => PUnit.unit) <$> x := rfl
    rw [List.map_cons, List.cons_append, List.foldlM_cons, List.forM, bind_assoc, ← ih, hblock,
      bind_assoc]
    simp only [pure_bind]
    rw [hdiscard, hdiscard, map_bind]

variable {re} {c : Cursor} {e e' : Engine}

/-- A code block of a context whose code was run calls the hook of a new start. -/
theorem runOn_runCodeBlock_again (hrun : executed e c.ctx = true) (body : List Stmt) (line : Nat) :
    (runCodeBlock re body line c).runOn e = (restart re c.ctx).runOn e := by
  refine runOn_ext fun r e' => ?_
  rw [runCodeBlock_eq, gives_read_bind, hrun]
  rfl

/-- A code block of a context whose code was not run yet runs it. -/
theorem runOn_runCodeBlock_first (hnew : executed e c.ctx = false) (body : List Stmt) (line : Nat) :
    (runCodeBlock re body line c).runOn e = Act.runOn (do
      runCode re body line c
      goOn re c.ctx (← callInit re c.ctx)) e := by
  refine runOn_ext fun r e' => ?_
  rw [runCodeBlock_eq, gives_read_bind, hnew]
  rfl

section

variable (hre : re.Operates)
include hre

/-- Running code is noted. -/
theorem hasRun_of_runCode {body : List Stmt} {line : Nat} {r : Except EngineError Unit}
    (h : (runCode re body line c).Gives e r e') (hvalid : e.nodes.Valid)
    (hnew : executed e c.ctx = false) : e'.HasRun c.ctx := by
  have hclosed := (hasRun_closed c.ctx).evaluation
  have hen := hre.enters (hasRun_closed c.ctx)
  have hcode : Act.Keeps (HasRun c.ctx) (Act.evaluating (Interpreter.exec
      (Site.env re ⟨c.ctx, c.frame, some c.ctx, none⟩) line body)) :=
    keeps_lift (Interpreter.exec_related
      (Site.env_keeps hclosed hen (Site.readsFor_untracked _ _ _)) line body)
  have hrest := keeps_bind hcode fun outcome =>
    keeps_discard (recover_keeps hclosed (outcome.map (·.getD .null)) c.ctx none)
  -- the note is made before the code is run, which does not take it back
  refine hrest (gives_change_bind.1 h) ⟨hvalid.modify _ _, .inl ?_⟩
  unfold executed context? at hnew
  cases hn : e.node? c.ctx with
  | none =>
    rw [hn] at hnew
    cases hnew
  | some n =>
    rw [hn, Option.bind_some] at hnew
    refine ⟨_, (node?_modifyNode ..).trans ((if_pos rfl).trans (congrArg _ hn)), ?_⟩
    dsimp only
    revert hnew
    cases n.kind with
    | context data => exact fun _ => rfl
    | _ => exact nofun

/-- The first code block leaves the note. -/
theorem hasRun_of_runCodeBlock {body : List Stmt} {line : Nat} {r : Except EngineError Unit}
    (h : (runCodeBlock re body line c).Gives e r e') (hvalid : e.nodes.Valid)
    (hnew : executed e c.ctx = false) : e'.HasRun c.ctx := by
  have hclosed := (hasRun_closed c.ctx).evaluation
  have hen := hre.enters (hasRun_closed c.ctx)
  have hrestart : (restart re c.ctx).Keeps (HasRun c.ctx) :=
    callOwnHook_keeps hclosed hen c.ctx (some c.ctx) "on_restart" []
  unfold Act.Gives at h
  rw [runOn_runCodeBlock_first hnew] at h
  obtain ⟨⟨⟩, e₁, hcode, hrest⟩ | ⟨err, hcode, -⟩ := gives_bind.1 h
  · refine keeps_bind (callInit_keeps hclosed hen c.ctx) (fun lets => ?_) hrest
      (hasRun_of_runCode hre hcode hvalid hnew)
    cases lets with
    | true => exact hrestart
    | false => exact keeps_bind (keeps_read _) fun _ => keeps_throw _
  · exact hasRun_of_runCode hre hcode hvalid hnew

/-- Code blocks of a context whose code was run start it anew. -/
theorem runOn_blocks_again (he : e.HasRun c.ctx) (blocks : List (List Stmt × Nat)) :
    Act.runOn (blocks.forM fun block => runCodeBlock re block.1 block.2 c) e =
      (startAnew re c blocks).runOn e := by
  have hclosed := hasRun_closed c.ctx
  induction blocks generalizing e with
  | nil => rfl
  | cons block blocks ih =>
    refine runOn_bind_congr (runOn_runCodeBlock_again he.executed _ _) fun _ e₁ h => ih ?_
    exact runCodeBlock_keeps hclosed.evaluation (hre.enters hclosed) _ _ c h he

/-- Code blocks of a context whose code was not run yet start it up. -/
theorem runOn_blocks_first (hvalid : e.nodes.Valid) (hnew : executed e c.ctx = false)
    (blocks : List (List Stmt × Nat)) :
    Act.runOn (blocks.forM fun block => runCodeBlock re block.1 block.2 c) e =
      (startUp re c blocks).runOn e := by
  cases blocks with
  | nil => rfl
  | cons block blocks =>
    obtain ⟨body, line⟩ := block
    have hsplit : startUp re c ((body, line) :: blocks) = (do
        runCode re body line c
        goOn re c.ctx (← callInit re c.ctx)) >>= fun _ => startAnew re c blocks := by
      simp only [bind_assoc]
      rfl
    rw [hsplit]
    refine runOn_bind_congr (runOn_runCodeBlock_first hnew body line) fun _ e₁ h => ?_
    exact runOn_blocks_again hre (hasRun_of_runCodeBlock hre h hvalid hnew) blocks

/-- A context that was started has the note, whatever came of its start. -/
theorem hasRun_of_startUp {blocks : List (List Stmt × Nat)} (hblocks : blocks ≠ [])
    {r : Except EngineError Unit} (h : (startUp re c blocks).Gives e r e') (hvalid : e.nodes.Valid)
    (hnew : executed e c.ctx = false) : e'.HasRun c.ctx := by
  have hclosed := hasRun_closed c.ctx
  have hcode (block : List Stmt × Nat) :
      (runCodeBlock re block.1 block.2 c).Keeps (HasRun c.ctx) :=
    runCodeBlock_keeps hclosed.evaluation (hre.enters hclosed) block.1 block.2 c
  obtain _ | ⟨block, blocks⟩ := blocks
  · exact absurd rfl hblocks
  unfold Act.Gives at h
  rw [← runOn_blocks_first hre hvalid hnew] at h
  obtain ⟨⟨⟩, e₁, hfirst, hrest⟩ | ⟨err, hfirst, -⟩ := gives_bind.1 h
  · exact keeps_forM (fun block _ => hcode block) hrest
      (hasRun_of_runCodeBlock hre hfirst hvalid hnew)
  · exact hasRun_of_runCodeBlock hre hfirst hvalid hnew

end

/-- In the life of a context only one code block is ever run, which is the first of those at the top
of its template in the order of the source. It is run when the template is built for the first time,
before anything else of the template, and the initial hook is called once behind it. If that lets
building go on, the hook of a new start is called once for each code block at the top, and then the
other nodes are built. Whatever comes of the start, and whatever operations do afterwards, no code
block is run for the context any more, be it at the top or deeper inside: it calls the hook of a new
start. So each time the template is built anew, the hook is called once for each code block at the
top, and then the other nodes are built. -/
theorem runs_code_once {source : String} {options : ParserOptions} {root : Node}
    (hread : parseTemplate source options = .ok root) {routine : Routine} (h : routine.Of root)
    {e : Engine} {ctx : NodeId} (hvalid : e.nodes.Valid) (hnew : executed e ctx = false) :
    (root.children.filter Node.isCode).Pairwise Node.Precedes ∧
    ∃ others, routine.body.steps = root.codeBlocks.map Step.ofBlock ++ others ∧
      (∀ step ∈ others, step.code? = none) ∧
      ∀ (depth : Nat) (c : Cursor), c.ctx = ctx →
        (buildBody (.within depth) routine.body c).runOn e = Act.runOn (do
          startUp (.within depth) c root.codeBlocks
          buildSteps (.within depth) others c) e ∧
        ∀ r e₁, (startUp (.within depth) c root.codeBlocks).Gives e r e₁ → root.codeBlocks ≠ [] →
          ∀ e₂, e₁.Later e₂ → executed e₂ ctx = true ∧
            ∀ (depth' : Nat) (c' : Cursor), c'.ctx = ctx →
              (∀ body line, (runCodeBlock (.within depth') body line c').runOn e₂ =
                (restart (.within depth') ctx).runOn e₂) ∧
              (buildBody (.within depth') routine.body c').runOn e₂ = Act.runOn (do
                startAnew (.within depth') c' root.codeBlocks
                buildSteps (.within depth') others c') e₂ := by
  obtain ⟨hroot, hgood⟩ := parseTemplate_good hread
  have harranged : Node.Arranged root.children := by
    obtain ⟨hgood, -⟩ := hgood
    refine hgood.wellFormed.arranged _ ?_
    cases root with
    | root header children => exact List.mem_singleton_self _
    | _ => cases hroot
  obtain ⟨others, hsteps, hothers⟩ := h.steps_eq harranged.codeFirst
  refine ⟨harranged.codes, others, hsteps, hothers, ?_⟩
  rintro depth c rfl
  have hre := Reentry.within_operates depth
  refine ⟨?_, fun r e₁ hstarted hblocks e₂ hlater => ?_⟩
  · rw [buildBody_eq _ hsteps]
    exact runOn_bind_congr (runOn_blocks_first hre hvalid hnew _) fun _ _ _ => rfl
  -- from the start on the context has the note
  have hrun := hlater.hasRun (hasRun_of_startUp hre hblocks hstarted hvalid hnew)
  refine ⟨hrun.executed, fun depth' c' hctx => ?_⟩
  have hre' := Reentry.within_operates depth'
  rw [← hctx] at hrun ⊢
  refine ⟨fun body line => runOn_runCodeBlock_again hrun.executed body line, ?_⟩
  rw [buildBody_eq _ hsteps]
  exact runOn_bind_congr (runOn_blocks_again hre' hrun _) fun _ _ _ => rfl

/-- A template with two code blocks: one build calls the hook of a new start twice, and does not run
the second block. -/
theorem runs_code_once_twice :
    let source := "<python>n = 0\nfn on_restart() \x7b n += 1 \x7d</python><python>n = 9</python>"
    let c : Cursor := ⟨⟨0, 0⟩, ⟨0, 0⟩, none, .html⟩
    ∃ root e₁ others, parseTemplate source {} = .ok root ∧ root.codeBlocks.length = 2 ∧
      let e := (Host.start {}).addRoot (.template "Main" root) .empty |>.2
      executed e ⟨0, 0⟩ = false ∧ (startUp (.within 9) c root.codeBlocks).Gives e (.ok ()) e₁ ∧
      (buildBody (.within 9) (.nodes root.children) c).runOn e = Act.runOn (do
        startUp (.within 9) c root.codeBlocks
        buildSteps (.within 9) others c) e ∧
      (e₁.getVar ⟨0, 0⟩ "n").map Value.display = some "2" ∧
      (buildBody (.within 9) (.nodes root.children) c).runOn e₁ = Act.runOn (do
        startAnew (.within 9) c root.codeBlocks
        buildSteps (.within 9) others c) e₁ := by
  intro source c
  have hgood : (parseTemplate source {}).toOption.any (fun root =>
      root.codeBlocks.length == 2 &&
        ((startUp (.within 9) c root.codeBlocks).runOn
          ((Host.start {}).addRoot (.template "Main" root) .empty).2).any (fun p =>
            p.1.isOk && ((p.2.getVar ⟨0, 0⟩ "n").map Value.display == some "2"))) = true := by
    decide +kernel
  obtain ⟨root, hread, hgood⟩ := (Option.any_eq_true _ _).1 hgood
  have hread : parseTemplate source {} = .ok root := by
    revert hread
    cases parseTemplate source {} with
    | ok read => exact fun h => congrArg Except.ok (Option.some.inj h)
    | error err => exact nofun
  obtain ⟨hlength, hgood⟩ := (Bool.and_eq_true _ _).mp hgood
  obtain ⟨⟨r, e₁⟩, hstarted, hgood⟩ := (Option.any_eq_true _ _).1 hgood
  obtain ⟨hok, hshown⟩ := (Bool.and_eq_true _ _).mp hgood
  obtain rfl : r = .ok () := by
    cases r with
    | ok u => rfl
    | error err => cases hok
  have hlength : root.codeBlocks.length = 2 := beq_iff_eq.1 hlength
  have hblocks : root.codeBlocks ≠ [] := List.ne_nil_of_length_pos (hlength ▸ Nat.two_pos)
  have hvalid : ((Host.start {}).addRoot (.template "Main" root) .empty).2.nodes.Valid :=
    valid_stable.closed.addRoot (fun _ _ he => he) _ _ Arena.valid_empty
  have hnew : executed ((Host.start {}).addRoot (.template "Main" root) .empty).2 ⟨0, 0⟩ = false :=
    rfl
  obtain ⟨-, others, -, -, hbuild⟩ := runs_code_once hread (.template "Main") hvalid hnew
  obtain ⟨hfirst, hlater⟩ := hbuild 9 c rfl
  obtain ⟨-, hanew⟩ := hlater _ e₁ hstarted hblocks e₁ (.refl e₁)
  exact ⟨root, e₁, others, hread, hlength, hnew, hstarted, hfirst, beq_iff_eq.1 hshown,
    (hanew 9 c rfl).2⟩

end Render
end ReactiveView
