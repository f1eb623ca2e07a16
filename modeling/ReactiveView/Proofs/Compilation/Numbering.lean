import ReactiveView.Proofs.Compilation.Bodies

/-!
# The numbers of procedures

Compilation gives a body its number before it knows how many bodies are inside it, and hands the
next free number along through nodes, component references and branches. Two readings of the result
say that no number is lost or used twice on the way.

The first is from the template. `Node.bodies` walks a template and lists the bodies that it meets, a
body before those inside it, and compilation makes one procedure for each of them, in this order
(`Compile.nodeOps_procedures`). The steps of a body are those of its nodes, compiled as if the bodies
inside had the numbers right after its own.

The second is from the program. The steps of a program mention its procedures by number, and
procedures are `Laid` out as they are mentioned: the procedure of a mention comes first, the
procedures that its own steps mention come right after it, and then that of the next mention. From
this shape alone the mentions are the numbers of the procedures, each of them once (`Laid.perm`), a
mention finds a procedure of its kind, and it stands in one with a lower number (`Laid.finds`).

`compile_closed_preordered` puts the two together and draws the conclusion for whoever executes a
program: from the first procedure on, each procedure that is asked for is there.
-/

namespace ReactiveView

/-! ## Bodies in a template -/

/-- A body in a template that has a procedure of its own. -/
structure TemplateBody where
  /-- What it is the body of. -/
  kind : ProcKind
  /-- Its nodes. -/
  nodes : List Node

namespace Node

mutual

/-- The bodies inside a node, in the order in which a walk meets them. -/
def bodies : Node → List TemplateBody
  | root _ children | element _ children | scope _ children => bodiesIn children
  | component _ _ children =>
    let sections := sectionBodies children
    if children.all (·.slotSection?.isSome) then sections
    else
      sections ++ ⟨.slotContent, children.filter (·.slotSection?.isNone)⟩ :: contentBodies children
  | choice _ _ branches => branchBodies branches
  | loop _ _ _ _ children empty =>
    let body := ⟨.loopBody, children⟩ :: bodiesIn children
    match empty with
    | none => body
    | some nodes => body ++ ⟨.loopEmpty, nodes⟩ :: bodiesIn nodes
  | binding _ _ _ children => ⟨.setBody, children⟩ :: bodiesIn children
  | slot _ _ children =>
    if children.isEmpty then [] else ⟨.slotFallback, children⟩ :: bodiesIn children
  | code .. | style .. | script .. | event .. | text .. | dynamicText .. | signal .. => []
termination_by structural n => n

/-- The bodies inside siblings. -/
def bodiesIn : List Node → List TemplateBody
  | [] => []
  | n :: ns => n.bodies ++ bodiesIn ns
termination_by structural ns => ns

/-- The content of the named slots among the children of a component reference, and the bodies
inside it. -/
def sectionBodies : List Node → List TemplateBody
  | [] => []
  | n :: ns =>
    if n.slotSection?.isSome then ⟨.slotContent, n.children⟩ :: n.bodies ++ sectionBodies ns
    else sectionBodies ns
termination_by structural ns => ns

/-- The bodies inside the other children. -/
def contentBodies : List Node → List TemplateBody
  | [] => []
  | n :: ns => if n.slotSection?.isSome then contentBodies ns else n.bodies ++ contentBodies ns
termination_by structural ns => ns

/-- The branches of a condition, and the bodies inside them. -/
def branchBodies : List (Option DynamicExpr × List Node) → List TemplateBody
  | [] => []
  | (_, nodes) :: branches => ⟨.branch, nodes⟩ :: bodiesIn nodes ++ branchBodies branches
termination_by structural branches => branches

end

/-- There is no body in a lone text. -/
theorem bodiesIn_loneText {children : List Node} {t : TextSource}
    (h : loneText? children = some t) : bodiesIn children = [] := by
  unfold loneText? at h
  split at h
  · rfl
  · rfl
  · cases h

end Node

namespace Compile

open Node

/-- The procedure of a body with a number: its nodes are compiled with the numbers after it. -/
def procedureOf (id : ProcId) (b : TemplateBody) : Procedure :=
  ⟨b.kind, (nodeOps (id + 1) b.nodes).1⟩

/-- The procedures of bodies that are numbered one after the other. -/
def numbered (next : ProcId) (bodies : List TemplateBody) : List Procedure :=
  bodies.mapIdx fun i b => procedureOf (next + i) b

@[simp]
theorem numbered_nil (next : ProcId) : numbered next [] = [] := rfl

@[simp]
theorem numbered_cons (next : ProcId) (b : TemplateBody) (bodies : List TemplateBody) :
    numbered next (b :: bodies) = procedureOf next b :: numbered (next + 1) bodies := by
  simp only [numbered, List.mapIdx_cons, Nat.add_zero, Nat.add_assoc, Nat.add_comm 1]

@[simp]
theorem length_numbered (next : ProcId) (bodies : List TemplateBody) :
    (numbered next bodies).length = bodies.length := List.length_mapIdx

theorem numbered_append (next : ProcId) (bodies more : List TemplateBody) :
    numbered next (bodies ++ more) =
      numbered next bodies ++ numbered (next + (numbered next bodies).length) more := by
  rw [length_numbered]
  simp only [numbered, List.mapIdx_append, Nat.add_assoc, Nat.add_comm bodies.length]

/-- The procedures of a body and of those inside it. -/
theorem asProcedure_eq_numbered {next : ProcId} {kind : ProcKind} {ns : List Node}
    {inner : List TemplateBody} (h : (nodeOps (next + 1) ns).2 = numbered (next + 1) inner) :
    asProcedure kind (nodeOps (next + 1) ns) = numbered next (⟨kind, ns⟩ :: inner) := by
  rw [asProcedure, h, numbered_cons, procedureOf]

mutual

/-- The procedures of a node are those of the bodies inside it. -/
theorem nodeOp_procedures : ∀ (n : Node) (next : ProcId),
    (nodeOp next n).2 = numbered next n.bodies
  | .root _ children, next | .scope _ children, next => nodeOps_procedures children next
  | .element h children, next => by
    simp only [nodeOp, Node.bodies]
    cases ht : loneText? children with
    | some t => rw [bodiesIn_loneText ht, numbered_nil]
    | none => exact nodeOps_procedures children next
  | .component _ _ children, next => by
    simp only [nodeOp, Node.bodies]
    rw [slotSections_procedures children next]
    split
    · rfl
    · rw [numbered_append, numbered_cons, asProcedure, contentOps_procedures, procedureOf,
        contentOps_eq]
  | .choice _ _ branches, next => branchOps_procedures branches next
  | .loop _ _ _ _ children none, next =>
    asProcedure_eq_numbered (nodeOps_procedures children (next + 1))
  | .loop _ _ _ _ children (some nodes), next => by
    simp only [nodeOp, Node.bodies]
    rw [asProcedure_eq_numbered (nodeOps_procedures children (next + 1)),
      asProcedure_eq_numbered (nodeOps_procedures nodes _), ← numbered_append]
  | .binding _ _ _ children, next =>
    asProcedure_eq_numbered (nodeOps_procedures children (next + 1))
  | .slot _ _ children, next => by
    simp only [nodeOp, Node.bodies]
    split
    · rfl
    · exact asProcedure_eq_numbered (nodeOps_procedures children (next + 1))
  | .code .., _ | .style .., _ | .script .., _ | .event .., _ | .text .., _ | .dynamicText .., _
  | .signal .., _ => rfl
termination_by structural n => n

/-- So are those of siblings. -/
theorem nodeOps_procedures : ∀ (ns : List Node) (next : ProcId),
    (nodeOps next ns).2 = numbered next (bodiesIn ns)
  | [], _ => rfl
  | n :: ns, next => by
    simp only [nodeOps, bodiesIn]
    rw [numbered_append, nodeOp_procedures n next, nodeOps_procedures ns]
termination_by structural ns => ns

/-- Those of the content of named slots. -/
theorem slotSections_procedures : ∀ (ns : List Node) (next : ProcId),
    (slotSections next ns).2 = numbered next (sectionBodies ns)
  | [], _ => rfl
  | n :: ns, next => by
    cases n with
    | element h children =>
      simp only [slotSections, sectionBodies, Node.bodies, Node.children]
      cases hname : (element h children).slotSection? with
      | none => exact slotSections_procedures ns next
      | some name =>
        simp only [Option.isSome_some, if_true]
        rw [asProcedure_eq_numbered (nodeOps_procedures children (next + 1)), numbered_append,
          slotSections_procedures ns]
    | _ => exact slotSections_procedures ns next
termination_by structural ns => ns

/-- Those of the remaining content. -/
theorem contentOps_procedures : ∀ (ns : List Node) (next : ProcId),
    (contentOps next ns).2 = numbered next (contentBodies ns)
  | [], _ => rfl
  | n :: ns, next => by
    simp only [contentOps, contentBodies]
    split
    · exact contentOps_procedures ns next
    · rw [numbered_append, nodeOp_procedures n next, contentOps_procedures ns]
termination_by structural ns => ns

/-- And those of branches. -/
theorem branchOps_procedures : ∀ (branches : List (Option DynamicExpr × List Node))
    (next : ProcId), (branchOps next branches).2 = numbered next (branchBodies branches)
  | [], _ => rfl
  | (_, nodes) :: branches, next => by
    simp only [branchOps, branchBodies]
    rw [asProcedure_eq_numbered (nodeOps_procedures nodes (next + 1)), numbered_append,
      branchOps_procedures branches]
termination_by structural branches => branches

end

end Compile

/-! ## Mentions in a program -/

/-- A procedure as a step mentions it. -/
structure Mention where
  /-- What it is to be the body of. -/
  kind : ProcKind
  /-- Its number. -/
  id : ProcId

mutual

/-- The procedures that a step mentions, the steps inside it included. -/
def Op.mentions : Op → List Mention
  | .element _ _ content => content.mentions
  | .component _ _ defaultSlot namedSlots =>
    namedSlots.map (fun s => ⟨.slotContent, s.2⟩) ++
      (defaultSlot.map fun id => ⟨.slotContent, id⟩).toList
  | .condition branches _ => branches.map fun b => ⟨.branch, b.body⟩
  | .loop _ _ _ body empty => ⟨.loopBody, body⟩ :: (empty.map fun id => ⟨.loopEmpty, id⟩).toList
  | .set _ _ body => [⟨.setBody, body⟩]
  | .slot _ fallback => (fallback.map fun id => ⟨.slotFallback, id⟩).toList
  | .scope _ ops | .fragment ops => Op.mentionsIn ops
  | .text _ | .code .. | .carrier .. | .signal .. => []

/-- The procedures that the steps inside an element mention. -/
def ElementContent.mentions : ElementContent → List Mention
  | .text _ => []
  | .children ops => Op.mentionsIn ops

/-- The procedures that steps mention. -/
def Op.mentionsIn : List Op → List Mention
  | [] => []
  | op :: ops => op.mentions ++ Op.mentionsIn ops

end

/-- The numbers that the steps of procedures mention. -/
def Procedure.mentioned (procs : List Procedure) : List ProcId :=
  procs.flatMap fun proc => (Op.mentionsIn proc.ops).map (·.id)

@[simp]
theorem Procedure.mentioned_cons (proc : Procedure) (procs : List Procedure) :
    mentioned (proc :: procs) = (Op.mentionsIn proc.ops).map (·.id) ++ mentioned procs := rfl

@[simp]
theorem Procedure.mentioned_append (procs more : List Procedure) :
    mentioned (procs ++ more) = mentioned procs ++ mentioned more := List.flatMap_append

/-- What a step mentions is among what the steps around it do. -/
theorem Op.mem_mentionsIn {op : Op} {ops : List Op} {m : Mention} (hop : op ∈ ops)
    (hm : m ∈ op.mentions) : m ∈ mentionsIn ops := by
  induction ops with
  | nil => cases hop
  | cons first ops ih =>
    rw [mentionsIn, List.mem_append]
    rcases List.mem_cons.1 hop with rfl | hop
    · exact .inl hm
    · exact .inr (ih hop)

/-- A program has the procedure that is mentioned, and it is what it is mentioned as. -/
def Program.Finds (p : Program) (m : Mention) : Prop :=
  ∃ proc, p.procedure? m.id = some proc ∧ proc.kind = m.kind

/-- Procedures, numbered from `next` on, in the order of their mentions: one that is mentioned is
followed by those that its own steps mention. -/
inductive Laid : Nat → List Mention → List Procedure → Prop
  /-- Without a mention there is no procedure. -/
  | nil {next : Nat} : Laid next [] []
  /-- The procedure that is mentioned first, what is inside it, and the rest. -/
  | cons {next : Nat} {kind : ProcKind} {ops : List Op} {mentions : List Mention}
      {inner more : List Procedure} (hinner : Laid (next + 1) (Op.mentionsIn ops) inner)
      (hmore : Laid (next + 1 + inner.length) mentions more) :
      Laid next (⟨kind, next⟩ :: mentions) (⟨kind, ops⟩ :: (inner ++ more))

namespace Laid

variable {next : Nat} {mentions later : List Mention} {procs more : List Procedure}

/-- Mentions that follow each other. -/
theorem append (h : Laid next mentions procs) (hmore : Laid (next + procs.length) later more) :
    Laid next (mentions ++ later) (procs ++ more) := by
  induction h with
  | nil => exact hmore
  | @cons next kind ops mentions inner rest hinner hrest ihinner ihrest =>
    have hlength : next + (⟨kind, ops⟩ :: (inner ++ rest) : List Procedure).length =
        next + 1 + inner.length + rest.length := by
      rw [List.length_cons, List.length_append]
      omega
    rw [hlength] at hmore
    rw [List.cons_append, List.cons_append, List.append_assoc]
    exact .cons hinner (ihrest hmore)

/-- The mention of a body. -/
theorem asProcedure {kind : ProcKind} {body : List Op × List Procedure}
    (h : Laid (next + 1) (Op.mentionsIn body.1) body.2) :
    Laid next [⟨kind, next⟩] (Compile.asProcedure kind body) := by
  have hcons : Laid next [⟨kind, next⟩] (⟨kind, body.1⟩ :: (body.2 ++ [])) := .cons h .nil
  rwa [List.append_nil] at hcons

/-- The mentions, those in the procedures included, are the numbers of the procedures. -/
theorem perm (h : Laid next mentions procs) :
    (mentions.map (·.id) ++ Procedure.mentioned procs).Perm (List.range' next procs.length) := by
  induction h with
  | nil => exact .nil
  | @cons next kind ops mentions inner more _ _ ihinner ihmore =>
    rw [List.length_cons, List.length_append, List.range'_succ, ← List.range'_append_1]
    refine .cons next (.trans ?_ (ihinner.append ihmore))
    rw [List.append_eq, Procedure.mentioned_cons, Procedure.mentioned_append]
    -- The mentions that follow move behind what is inside the first procedure.
    have hmove : (mentions.map (·.id) ++
        ((Op.mentionsIn ops).map (·.id) ++ Procedure.mentioned inner)).Perm
        ((Op.mentionsIn ops).map (·.id) ++ Procedure.mentioned inner ++ mentions.map (·.id)) :=
      List.perm_append_comm
    simpa only [List.append_assoc] using hmove.append_right (Procedure.mentioned more)

/-- A program that has the procedures finds each that is mentioned, and a mention in a procedure is
of one with a higher number. -/
theorem finds {p : Program} (h : Laid next mentions procs) (hp : p.Has next procs) :
    (∀ m ∈ mentions, next ≤ m.id ∧ p.Finds m) ∧
      ∀ i proc, procs[i]? = some proc →
        ∀ m ∈ Op.mentionsIn proc.ops, next + i < m.id ∧ p.Finds m := by
  induction h with
  | nil => exact ⟨fun _ hm => absurd hm List.not_mem_nil, fun i proc hi => by simp at hi⟩
  | @cons next kind ops mentions inner more _ _ ihinner ihmore =>
    obtain ⟨hfirst, hrest⟩ := hp.cons
    obtain ⟨hinner, hmore⟩ := hrest.append
    obtain ⟨hown, hdeep⟩ := ihinner hinner
    obtain ⟨hlater, hlast⟩ := ihmore hmore
    constructor
    · intro m hm
      rcases List.mem_cons.1 hm with rfl | hm
      · exact ⟨Nat.le_refl _, _, hfirst, rfl⟩
      · exact ⟨by have := (hlater m hm).1; omega, (hlater m hm).2⟩
    · intro i proc hi m hm
      cases i with
      | zero =>
        obtain rfl : ⟨kind, ops⟩ = proc := Option.some.inj hi
        exact hown m hm
      | succ j =>
        rw [List.getElem?_cons_succ] at hi
        rcases Nat.lt_or_ge j inner.length with hj | hj
        · rw [List.getElem?_append_left hj] at hi
          exact ⟨by have := (hdeep j proc hi m hm).1; omega, (hdeep j proc hi m hm).2⟩
        · rw [List.getElem?_append_right hj] at hi
          exact ⟨by have := (hlast _ proc hi m hm).1; omega, (hlast _ proc hi m hm).2⟩

end Laid

namespace Compile

mutual

/-- The procedures of a node are laid out as its step mentions them. -/
theorem laid_nodeOp : ∀ (n : Node) (next : ProcId),
    Laid next (nodeOp next n).1.mentions (nodeOp next n).2
  | .root _ children, next | .scope _ children, next => laid_nodeOps children next
  | .element _ children, next => by
    simp only [nodeOp]
    cases Node.loneText? children with
    | some t => exact .nil
    | none => exact laid_nodeOps children next
  | .component _ _ children, next => by
    simp only [nodeOp]
    split
    · simpa only [Op.mentions, Option.map_none, Option.toList_none, List.append_nil] using
        laid_slotSections children next
    · exact (laid_slotSections children next).append (.asProcedure (laid_contentOps children _))
  | .choice _ _ branches, next => laid_branchOps branches next
  | .loop _ _ _ _ children none, next => .asProcedure (laid_nodeOps children (next + 1))
  | .loop _ _ _ _ children (some nodes), next =>
    (Laid.asProcedure (laid_nodeOps children (next + 1))).append
      (.asProcedure (laid_nodeOps nodes _))
  | .binding _ _ _ children, next => .asProcedure (laid_nodeOps children (next + 1))
  | .slot _ _ children, next => by
    simp only [nodeOp]
    split
    · exact .nil
    · exact .asProcedure (laid_nodeOps children (next + 1))
  | .code .., _ | .style .., _ | .script .., _ | .event .., _ | .text .., _ | .dynamicText .., _
  | .signal .., _ => .nil
termination_by structural n => n

/-- So are those of siblings. -/
theorem laid_nodeOps : ∀ (ns : List Node) (next : ProcId),
    Laid next (Op.mentionsIn (nodeOps next ns).1) (nodeOps next ns).2
  | [], _ => .nil
  | n :: ns, next => (laid_nodeOp n next).append (laid_nodeOps ns _)
termination_by structural ns => ns

/-- Those of the content of named slots. -/
theorem laid_slotSections : ∀ (ns : List Node) (next : ProcId),
    Laid next ((slotSections next ns).1.map fun s => ⟨.slotContent, s.2⟩) (slotSections next ns).2
  | [], _ => .nil
  | n :: ns, next => by
    cases n with
    | element h children =>
      simp only [slotSections]
      cases (Node.element h children).slotSection? with
      | none => exact laid_slotSections ns next
      | some name =>
        exact (Laid.asProcedure (laid_nodeOps children (next + 1))).append (laid_slotSections ns _)
    | _ => exact laid_slotSections ns next
termination_by structural ns => ns

/-- Those of the remaining content. -/
theorem laid_contentOps : ∀ (ns : List Node) (next : ProcId),
    Laid next (Op.mentionsIn (contentOps next ns).1) (contentOps next ns).2
  | [], _ => .nil
  | n :: ns, next => by
    simp only [contentOps]
    split
    · exact laid_contentOps ns next
    · exact (laid_nodeOp n next).append (laid_contentOps ns _)
termination_by structural ns => ns

/-- And those of branches. -/
theorem laid_branchOps : ∀ (branches : List (Option DynamicExpr × List Node)) (next : ProcId),
    Laid next ((branchOps next branches).1.map fun b => ⟨.branch, b.body⟩)
      (branchOps next branches).2
  | [], _ => .nil
  | (_, nodes) :: branches, next =>
    (Laid.asProcedure (laid_nodeOps nodes (next + 1))).append (laid_branchOps branches _)
termination_by structural branches => branches

end

end Compile

/-! ## Compiled programs -/

section

variable (name : String) (root : Node) (hash : String)

/-- The procedures of a compiled program are those of the bodies of its template. -/
theorem compile_procedures :
    (compile name root hash).procedures =
      Compile.numbered 0 (⟨.entry, root.children⟩ :: Node.bodiesIn root.children) :=
  Compile.asProcedure_eq_numbered (Compile.nodeOps_procedures root.children 1)

/-- They are laid out as mentioned, from the first on. -/
theorem laid_compile : Laid 0 [⟨.entry, 0⟩] (compile name root hash).procedures :=
  .asProcedure (Compile.laid_nodeOps root.children 1)

/-- A mention in a procedure is of one with a higher number, which is what it is mentioned as. -/
theorem compile_finds {id : Nat} {proc : Procedure}
    (hproc : (compile name root hash).procedure? id = some proc) :
    ∀ m ∈ Op.mentionsIn proc.ops, id < m.id ∧ (compile name root hash).Finds m := by
  have hhas : (compile name root hash).Has 0 (compile name root hash).procedures := by
    intro i proc hi
    rwa [Nat.zero_add]
  have h := ((laid_compile name root hash).finds hhas).2 id proc hproc
  rwa [Nat.zero_add] at h

/-- Each procedure but the first is mentioned once, and no other number is. -/
theorem count_mentioned_compile (id : Nat) :
    (Procedure.mentioned (compile name root hash).procedures).count id =
      if 0 < id ∧ id < (compile name root hash).procedures.length then 1 else 0 := by
  have hcount := (laid_compile name root hash).perm.count_eq id
  rw [(List.nodup_range' 1).count, List.map_cons, List.map_nil, List.singleton_append] at hcount
  simp only [List.count_cons, List.mem_range'_1, Nat.zero_le, Nat.zero_add, true_and, beq_iff_eq]
    at hcount
  rcases Nat.eq_zero_or_pos id with rfl | hpos
  · rw [if_pos rfl, if_pos (show 0 < (compile name root hash).procedures.length from
      Nat.zero_lt_succ _)] at hcount
    rw [if_neg fun h => Nat.lt_irrefl 0 h.1]
    exact Nat.succ.inj hcount
  · rw [if_neg (Nat.ne_of_lt hpos), Nat.add_zero] at hcount
    rw [hcount]
    exact if_congr (and_iff_right hpos).symm rfl rfl

end

/-! ## Execution -/

/-- The bodies in a step. -/
def Step.bodies : Step → List Body
  | element _ _ (.body b) => [b]
  | element _ _ (.text _) => []
  | component _ _ slots => slots.default.toList ++ slots.named.values
  | choice branches _ => branches.map (·.body)
  | loop spec => spec.body :: spec.empty.toList
  | set _ _ body | scope _ body | fragment body => [body]
  | slot _ fallback => fallback.toList
  | text _ | code .. | carrier _ | signal .. => []

/-- The bodies that executing a program can come to: that of the component, and those in the steps
of a body that it comes to. -/
inductive Program.Reaches (p : Program) : Body → Prop
  /-- Execution starts with the body of the component. -/
  | start : Reaches p (Routine.program p).body
  /-- A step is executed with the bodies in it. -/
  | step {b inner : Body} {s : Step} (h : Reaches p b) (hs : s ∈ b.steps)
      (hinner : inner ∈ s.bodies) : Reaches p inner

/-- A body of a program whose steps mention procedures that the program has. -/
def Program.Serves (p : Program) (b : Body) : Prop :=
  ∃ ops, b = .ops p ops ∧ ∀ m ∈ Op.mentionsIn ops, p.Finds m

/-- A program finds each procedure that its procedures mention. -/
def Program.Closed (p : Program) : Prop :=
  ∀ id proc, p.procedure? id = some proc → ∀ m ∈ Op.mentionsIn proc.ops, p.Finds m

/-- A value of the map of a list of pairs is that of one of the pairs. -/
theorem OrderedMap.mem_values_ofList {κ α : Type} [DecidableEq κ] {pairs : List (κ × α)} {v : α}
    (hv : v ∈ (ofList pairs).values) : ∃ e ∈ pairs, e.2 = v := by
  have hput (k : κ) (w : α) (es : List (κ × α)) (h : v ∈ (put k w es).map (·.2)) :
      w = v ∨ v ∈ es.map (·.2) := by
    induction es with
    | nil => exact .inl (List.mem_singleton.1 h).symm
    | cons e es ih =>
      unfold put at h
      split at h
      · rcases List.mem_cons.1 h with rfl | h
        · exact .inl rfl
        · exact .inr (List.mem_cons_of_mem _ h)
      · rcases List.mem_cons.1 h with rfl | h
        · exact .inr List.mem_cons_self
        · exact (ih h).imp id (List.mem_cons_of_mem _)
  have hall (pairs : List (κ × α)) : ∀ m : OrderedMap κ α, v ∈ (m.insertAll pairs).values →
      v ∈ m.values ∨ ∃ e ∈ pairs, e.2 = v := by
    induction pairs with
    | nil => exact fun _ h => .inl h
    | cons e pairs ih =>
      intro m h
      rcases ih _ h with h | ⟨e', he', heq⟩
      · rcases hput e.1 e.2 m.entries h with heq | h
        · exact .inr ⟨e, List.mem_cons_self, heq⟩
        · exact .inl h
      · exact .inr ⟨e', List.mem_cons_of_mem _ he', heq⟩
  exact (hall pairs .empty hv).resolve_left List.not_mem_nil

namespace Program.Closed

variable {p : Program} (hp : p.Closed)
include hp

/-- The procedure of a mention that is found. -/
theorem serves_procedure {m : Mention} (hm : p.Finds m) : p.Serves (.procedure p m.id) := by
  obtain ⟨proc, hproc, -⟩ := hm
  refine ⟨proc.ops, ?_, hp m.id proc hproc⟩
  rw [Body.procedure, hproc]
  rfl

/-- The bodies in a step that mentions procedures of the program. -/
theorem serves_step {op : Op} (hop : ∀ m ∈ op.mentions, p.Finds m) {b : Body}
    (hb : b ∈ (Step.ofOp p op).bodies) : p.Serves b := by
  have hmention (kind : ProcKind) (id : ProcId) (hm : ⟨kind, id⟩ ∈ op.mentions) :
      p.Serves (.procedure p id) := hp.serves_procedure (hop _ hm)
  cases op with
  | element tag attrs content =>
    cases content with
    | text source => cases hb
    | children ops =>
      obtain rfl := List.mem_singleton.1 hb
      exact ⟨ops, rfl, hop⟩
  | component name attrs default named =>
    rcases List.mem_append.1 hb with hb | hb
    · obtain ⟨id, rfl, rfl⟩ := Option.map_eq_some_iff.1 (Option.mem_toList.1 hb)
      exact hmention .slotContent id (List.mem_append_right _ (by simp))
    · obtain ⟨e, he, rfl⟩ := OrderedMap.mem_values_ofList hb
      obtain ⟨s, hs, rfl⟩ := List.mem_map.1 he
      exact hmention .slotContent s.2 (List.mem_append_left _ (List.mem_map_of_mem hs))
  | condition branches reactive =>
    obtain ⟨branch, hbranch, rfl⟩ := List.mem_map.1 hb
    obtain ⟨source, hsource, rfl⟩ := List.mem_map.1 hbranch
    exact hmention .branch source.body (List.mem_map_of_mem hsource)
  | loop var iterable identity body empty =>
    rcases List.mem_cons.1 hb with rfl | hb
    · exact hmention .loopBody body List.mem_cons_self
    · obtain ⟨id, rfl, rfl⟩ := Option.map_eq_some_iff.1 (Option.mem_toList.1 hb)
      exact hmention .loopEmpty id (List.mem_cons_of_mem _ (by simp))
  | set name value body =>
    obtain rfl := List.mem_singleton.1 hb
    exact hmention .setBody body List.mem_cons_self
  | slot name fallback =>
    obtain ⟨id, rfl, rfl⟩ := Option.map_eq_some_iff.1 (Option.mem_toList.1 hb)
    exact hmention .slotFallback id (by simp [Op.mentions])
  | scope bindings ops =>
    obtain rfl := List.mem_singleton.1 hb
    exact ⟨ops, rfl, hop⟩
  | fragment ops =>
    obtain rfl := List.mem_singleton.1 hb
    exact ⟨ops, rfl, hop⟩
  | text _ | code _ _ | carrier _ _ _ _ _ | signal _ _ => cases hb

/-- Execution comes to no other body, once the program has a first procedure. -/
theorem serves {kind : ProcKind} (hentry : p.Finds ⟨kind, 0⟩) {b : Body} (h : p.Reaches b) :
    p.Serves b := by
  induction h with
  | start => exact hp.serves_procedure hentry
  | step _ hs hinner ih =>
    obtain ⟨ops, rfl, hops⟩ := ih
    obtain ⟨op, hop, rfl⟩ := List.mem_map.1 hs
    exact hp.serves_step (fun m hm => hops m (Op.mem_mentionsIn hop hm)) hinner

end Program.Closed

/-- Compiled programs are closed and numbered in the order of a walk through the template. Their
procedures are those of the bodies that the walk meets, the template itself first. A procedure
mentions only such with higher numbers, and these are there and are what they are mentioned as; each
but the first is mentioned exactly once, and the first never. So whatever body execution comes to is
one of the program whose steps mention procedures that are there. -/
theorem compile_closed_preordered (name : String) (root : Node) (hash : String) :
    (compile name root hash).procedures =
        (⟨.entry, root.children⟩ :: Node.bodiesIn root.children).mapIdx
          (fun id b => ⟨b.kind, (Compile.nodeOps (id + 1) b.nodes).1⟩) ∧
      (compile name root hash).Finds ⟨.entry, 0⟩ ∧
      (∀ id proc, (compile name root hash).procedure? id = some proc →
        ∀ m ∈ Op.mentionsIn proc.ops, id < m.id ∧ (compile name root hash).Finds m) ∧
      (∀ id, (Procedure.mentioned (compile name root hash).procedures).count id =
        if 0 < id ∧ id < (compile name root hash).procedures.length then 1 else 0) ∧
      ∀ b, (compile name root hash).Reaches b → ∃ ops, b = .ops (compile name root hash) ops ∧
        ∀ m ∈ Op.mentionsIn ops, (compile name root hash).Finds m := by
  have hentry : (compile name root hash).Finds ⟨.entry, 0⟩ := ⟨_, rfl, rfl⟩
  have hclosed : (compile name root hash).Closed :=
    fun _ _ hproc m hm => (compile_finds name root hash hproc m hm).2
  refine ⟨?_, hentry, fun _ _ => compile_finds name root hash,
    count_mentioned_compile name root hash, fun _ => hclosed.serves hentry⟩
  rw [compile_procedures, Compile.numbered]
  simp only [Compile.procedureOf, Nat.zero_add]

end ReactiveView
