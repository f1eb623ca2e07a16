import ReactiveView.Program.Compile
import ReactiveView.Render.Step
import Mathlib.Data.Quot

/-!
# Bodies of templates and of programs

A body of a template and the procedure that it is compiled to come down to the same build steps, but
for the bodies inside these steps, which are again a body of the template and the procedure that it
is compiled to (`Compiled.map_norm_steps`). To compare bodies, each is replaced by one of those that
it is connected with in this way (`Body.norm`): two bodies with the same norm have steps with the
same norms (`Body.map_norm_steps`), so they can be told apart neither at once nor later.
-/

namespace ReactiveView

/-! ## Procedures in their program -/

/-- A program has procedures from a number on. -/
def Program.Has (p : Program) (next : ProcId) (procs : List Procedure) : Prop :=
  ∀ i proc, procs[i]? = some proc → p.procedures[next + i]? = some proc

namespace Program.Has

variable {p : Program} {next : ProcId} {procs more : List Procedure}

/-- Procedures that follow each other. -/
theorem append (h : p.Has next (procs ++ more)) :
    p.Has next procs ∧ p.Has (next + procs.length) more := by
  constructor
  · intro i proc hi
    have hlt : i < procs.length := (List.getElem?_eq_some_iff.1 hi).1
    exact h i proc (by rw [List.getElem?_append_left hlt, hi])
  · intro i proc hi
    rw [Nat.add_assoc]
    refine h (procs.length + i) proc ?_
    rw [List.getElem?_append_right (Nat.le_add_right _ _), Nat.add_sub_cancel_left, hi]

/-- A procedure and those that follow it. -/
theorem cons {proc : Procedure} (h : p.Has next (proc :: procs)) :
    p.procedure? next = some proc ∧ p.Has (next + 1) procs := by
  refine ⟨h 0 proc rfl, fun i proc' hi => ?_⟩
  rw [Nat.add_right_comm, Nat.add_assoc]
  exact h (i + 1) proc' hi

end Program.Has

/-- A body of a template, and the steps that it is compiled to in a program that has the procedures
of the bodies inside it. -/
inductive Compiled : Body → Body → Prop
  /-- Siblings are compiled one by one. -/
  | mk {p : Program} {next : ProcId} {ns : List Node}
      (procs : p.Has next (Compile.nodeOps next ns).2) :
      Compiled (.nodes ns) (.ops p (Compile.nodeOps next ns).1)

/-- The procedure of a body. -/
theorem Compiled.procedure {p : Program} {next : ProcId} {kind : ProcKind} {ns : List Node}
    (h : p.Has next (Compile.asProcedure kind (Compile.nodeOps (next + 1) ns))) :
    Compiled (.nodes ns) (.procedure p next) := by
  obtain ⟨hproc, hinner⟩ := Program.Has.cons h
  unfold Body.procedure
  rw [hproc]
  exact .mk hinner

/-! ## Norms -/

/-- One body for all those that are connected by compilation. -/
noncomputable def Body.norm (b : Body) : Body := (Quot.mk Compiled b).out

/-- A body and what it is compiled to have one norm. -/
theorem Compiled.norm_eq {b b' : Body} (h : Compiled b b') : b.norm = b'.norm :=
  congrArg Quot.out (Quot.sound h)

/-- A branch with the norm of its body. -/
noncomputable def Branch.norm (b : Branch) : Branch := { b with body := b.body.norm }

/-- A loop with the norms of its bodies. -/
noncomputable def LoopSpec.norm (l : LoopSpec) : LoopSpec :=
  { l with body := l.body.norm, empty := l.empty.map Body.norm }

/-- The norms of the content for slots. -/
noncomputable def SlotContent.norm (s : SlotContent) : SlotContent where
  default := s.default.map Body.norm
  named := s.named.mapValues Body.norm

/-- The content of an element with the norm of its body. -/
noncomputable def Content.norm : Content → Content
  | text source => text source
  | body b => body b.norm

/-- A build step with the norms of its bodies. -/
noncomputable def Step.norm : Step → Step
  | element tag actions content => element tag actions content.norm
  | text source => text source
  | component name actions slots => component name actions slots.norm
  | choice branches reactive => choice (branches.map Branch.norm) reactive
  | loop spec => loop spec.norm
  | set name value body => set name value body.norm
  | slot name fallback => slot name (fallback.map Body.norm)
  | code body line => code body line
  | carrier spec => carrier spec
  | scope bindings body => scope bindings body.norm
  | signal key action => signal key action
  | fragment body => fragment body.norm

/-! ## Steps -/

/-- The content for the slot without a name is compiled like the siblings that it consists of. -/
theorem Compile.contentOps_eq (ns : List Node) : ∀ next,
    contentOps next ns = nodeOps next (ns.filter (·.slotSection?.isNone)) := by
  induction ns with
  | nil => exact fun _ => rfl
  | cons n ns ih =>
    intro next
    unfold contentOps
    cases hn : n.slotSection? with
    | none =>
      have hfilter : (n :: ns).filter (·.slotSection?.isNone) =
          n :: ns.filter (·.slotSection?.isNone) := by simp [hn]
      simp only [Option.isSome_none, Bool.false_eq_true, if_false, hfilter, nodeOps, ih]
    | some name =>
      have hfilter : (n :: ns).filter (·.slotSection?.isNone) =
          ns.filter (·.slotSection?.isNone) := by simp [hn]
      simp only [Option.isSome_some, if_true, hfilter, ih]

/-- Writing pairs whose values are changed. -/
theorem OrderedMap.mapValues_ofList {κ α β : Type} [DecidableEq κ] (f : α → β)
    (pairs : List (κ × α)) :
    (OrderedMap.ofList pairs).mapValues f = .ofList (pairs.map fun e => (e.1, f e.2)) := by
  have hall (pairs : List (κ × α)) : ∀ m : OrderedMap κ α,
      (m.insertAll pairs).mapValues f =
        (m.mapValues f).insertAll (pairs.map fun e => (e.1, f e.2)) := by
    induction pairs with
    | nil => exact fun _ => rfl
    | cons e pairs ih =>
      intro m
      rw [insertAll, List.foldl_cons, ← insertAll, ih, mapValues_insert]
      rfl
  exact hall pairs .empty

/-- The content for the slots with a name, and the procedures that it is compiled to. -/
theorem Compile.norm_slotSections {p : Program} (ns : List Node) : ∀ next,
    p.Has next (slotSections next ns).2 →
      ns.filterMap (fun child => child.slotSection?.map fun name =>
        (name, (Body.nodes child.children).norm)) =
      (slotSections next ns).1.map fun (name, id) => (name, (Body.procedure p id).norm) := by
  induction ns with
  | nil => exact fun _ _ => rfl
  | cons n ns ih =>
    intro next h
    have hother (hn : n.slotSection? = none)
        (hs : slotSections next (n :: ns) = slotSections next ns) :
        (n :: ns).filterMap (fun child => child.slotSection?.map fun name =>
          (name, (Body.nodes child.children).norm)) =
        (slotSections next (n :: ns)).1.map fun (name, id) =>
          (name, (Body.procedure p id).norm) := by
      rw [hs] at h ⊢
      rw [List.filterMap_cons, hn, Option.map_none]
      exact ih next h
    cases n with
    | element header children =>
      cases hn : (Node.element header children).slotSection? with
      | none => exact hother hn (by simp only [slotSections, hn])
      | some name =>
        simp only [slotSections, hn] at h ⊢
        obtain ⟨hprocs, hmore⟩ := h.append
        have hnorm : (Body.nodes (Node.element header children).children).norm =
            (Body.procedure p next).norm := (Compiled.procedure hprocs).norm_eq
        rw [List.filterMap_cons, hn, Option.map_some, ih _ hmore, List.map_cons, hnorm]
    | _ => exact hother rfl rfl

/-- The branches of a condition, and those that they are compiled to. -/
theorem Compile.norm_branchOps {p : Program} (branches : List (Option DynamicExpr × List Node)) :
    ∀ next, p.Has next (branchOps next branches).2 →
      branches.map (fun b => Branch.norm ⟨b.1, .nodes b.2⟩) =
      (branchOps next branches).1.map fun b => Branch.norm ⟨b.predicate, .procedure p b.body⟩ := by
  induction branches with
  | nil => exact fun _ _ => rfl
  | cons branch branches ih =>
    intro next h
    obtain ⟨predicate, nodes⟩ := branch
    simp only [branchOps] at h ⊢
    obtain ⟨hprocs, hmore⟩ := h.append
    rw [List.map_cons, ih _ hmore, List.map_cons]
    simp only [Branch.norm, (Compiled.procedure hprocs).norm_eq]

/-- A node and the step that it is compiled to. -/
theorem Compile.norm_nodeOp {p : Program} {next : ProcId} (n : Node)
    (h : p.Has next (nodeOp next n).2) :
    (Step.ofNode n).norm = (Step.ofOp p (nodeOp next n).1).norm := by
  cases n with
  | root header children =>
    simp only [Step.ofNode, nodeOp, Step.ofOp, Step.norm]
    rw [(Compiled.mk h).norm_eq]
  | element header children =>
    simp only [Step.ofNode, nodeOp] at h ⊢
    cases ht : Node.loneText? children with
    | some text => rfl
    | none =>
      simp only [ht, Step.ofOp, Step.norm, Content.norm] at h ⊢
      rw [(Compiled.mk h).norm_eq]
  | component header name children =>
    simp only [nodeOp] at h ⊢
    have hall : (children.all fun child => child.slotSection?.isSome) =
        children.all (·.slotSection?.isSome) := rfl
    by_cases hc : children.all (·.slotSection?.isSome) = true
    · rw [if_pos hc] at h
      rw [if_pos hc]
      have hnamed := norm_slotSections children next h
      simp only [Step.ofNode, Step.ofOp, Step.norm, SlotContent.norm, SlotContent.ofNodes, if_pos hc,
        Option.map_none, OrderedMap.mapValues_ofList, List.map_filterMap, Option.map_map,
        List.map_map, Function.comp_def]
      rw [hnamed]
    · rw [if_neg hc] at h
      rw [if_neg hc]
      obtain ⟨hsections, hcontent⟩ := h.append
      have hnamed := norm_slotSections children next hsections
      rw [contentOps_eq] at hcontent
      have hdefault := (Compiled.procedure hcontent).norm_eq
      simp only [Step.ofNode, Step.ofOp, Step.norm, SlotContent.norm, SlotContent.ofNodes, if_neg hc,
        Option.map_some, OrderedMap.mapValues_ofList, List.map_filterMap, Option.map_map,
        List.map_map, Function.comp_def]
      rw [hnamed, hdefault]
  | choice header reactive branches =>
    have hbranches := norm_branchOps branches next h
    simp only [Step.ofNode, nodeOp, Step.ofOp, Step.norm, List.map_map, Function.comp_def]
    rw [hbranches]
  | loop header var iterable identity children empty =>
    cases empty with
    | none =>
      have hbody := (Compiled.procedure h).norm_eq
      simp only [Step.ofNode, nodeOp, Step.ofOp, Step.norm, LoopSpec.norm, Option.map_none, hbody]
    | some nodes =>
      obtain ⟨hfirst, hsecond⟩ := Program.Has.append h
      have hbody := (Compiled.procedure hfirst).norm_eq
      have hempty := (Compiled.procedure hsecond).norm_eq
      simp only [Step.ofNode, nodeOp, Step.ofOp, Step.norm, LoopSpec.norm, Option.map_some, hbody,
        hempty]
  | binding header name value children =>
    have hbody := (Compiled.procedure h).norm_eq
    simp only [Step.ofNode, nodeOp, Step.ofOp, Step.norm, hbody]
  | slot header name children =>
    simp only [Step.ofNode, nodeOp] at h ⊢
    by_cases hc : children.isEmpty = true
    · rw [if_pos hc, if_pos hc]
      rfl
    · rw [if_neg hc] at h
      rw [if_neg hc, if_neg hc]
      simp only [Step.ofOp, Step.norm, Option.map_some, (Compiled.procedure h).norm_eq]
  | scope header children =>
    simp only [Step.ofNode, nodeOp, Step.ofOp, Step.norm]
    rw [(Compiled.mk h).norm_eq]
  | _ => rfl

/-- A body of a template and what it is compiled to have the same steps, up to the norms of the
bodies in them. -/
theorem Compiled.map_norm_steps {b b' : Body} (h : Compiled b b') :
    b.steps.map Step.norm = b'.steps.map Step.norm := by
  obtain ⟨hprocs⟩ := h
  rename_i p next ns
  simp only [Body.steps, List.map_map]
  induction ns generalizing next with
  | nil => rfl
  | cons n ns ih =>
    obtain ⟨hfirst, hrest⟩ := Program.Has.append hprocs
    simp only [Compile.nodeOps, List.map_cons, Function.comp_apply, Compile.norm_nodeOp n hfirst,
      ih hrest]

/-- Bodies with one norm have the same steps, up to the norms of the bodies in them. -/
theorem Body.map_norm_steps {b b' : Body} (h : b.norm = b'.norm) :
    b.steps.map Step.norm = b'.steps.map Step.norm := by
  have hquot : Quot.mk Compiled b = Quot.mk Compiled b' := by
    rw [← Quot.out_eq (Quot.mk Compiled b), ← Quot.out_eq (Quot.mk Compiled b')]
    exact congrArg _ h
  exact congrArg (Quot.lift (fun b => b.steps.map Step.norm) fun _ _ h => h.map_norm_steps) hquot

end ReactiveView
