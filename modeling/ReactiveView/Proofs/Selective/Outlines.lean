import ReactiveView.Proofs.Selective.Mounting
import ReactiveView.Render.Outline

/-!
# Outlines of trees that are laid out

Two engines may show one body with different nodes, frames and plans. A node of the one is like a node
of the other if both stand for the same step and see the same (`Engine.Alike`). Then they show the
same, and their children are alike one by one (`Plan.Stands.alike`). So if both see the same at their
roots, the outlines are equal (`Laid.outline_eq`).
-/

namespace ReactiveView

/-- A path that starts one step higher. -/
theorem Forest.Steps.cons {V : Forest} {a c x : NodeId} {k : Nat} {n : RenderNode} (hn : V a = some n)
    (hc : V.Parent a c) (h : V.Steps c k x) : V.Steps a (k + 1) x := by
  induction h with
  | zero => exact .succ (.zero hn) hc
  | succ _ hp ih => exact .succ ih hp

/-- The line of an element tells its tag and its state. -/
theorem ElementData.outline_congr {data data' : ElementData} (htag : data.tag = data'.tag)
    (hstate : data.state = data'.state) : data.outline = data'.outline := by
  unfold outline
  rw [htag, hstate]

namespace Engine

variable {e e' : Engine} {g g' : Plan} {root root' p p' x y : NodeId} {frame frame' : Option FrameId}
  {b : Body} {Start : Outlook → Prop} {Arises Arises' : Value → Prop} {o o' : Outlook}
  {n n' : RenderNode} {step : Step} {sight sight' : Sight} {ids ids' : List NodeId}

/-- Two nodes stand for the same step and see the same. -/
structure Alike (e : Engine) (root : NodeId) (g : Plan) (e' : Engine) (root' : NodeId) (g' : Plan)
    (x y : NodeId) : Prop where
  /-- The step. -/
  step : (g.label x).step = (g'.label y).step
  /-- What they see. -/
  outlook : e.outlook root (g.label x).frame = e'.outlook root' (g'.label y).frame

/-- Rows that are built from the same steps are alike if they see the same. -/
theorem alike_of_row {steps : List Step} (h : g.Row p frame steps ids) (h' : g'.Row p' frame' steps ids')
    (hout : e.outlook root frame = e'.outlook root' frame') :
    List.Forall₂ (e.Alike root g e' root' g') ids ids' := by
  unfold Plan.Row at h h'
  induction steps generalizing ids ids' with
  | nil =>
    obtain rfl := List.map_eq_nil_iff.1 h
    obtain rfl := List.map_eq_nil_iff.1 h'
    exact .nil
  | cons s steps ih =>
    obtain ⟨x, xs, rfl, hx, hxs⟩ := List.map_eq_cons_iff.1 h
    obtain ⟨y, ys, rfl, hy, hys⟩ := List.map_eq_cons_iff.1 h'
    refine .cons ⟨?_, ?_⟩ (ih hxs hys)
    · rw [hx, hy]
      rfl
    · rw [hx, hy]
      exact hout

/-- Instances of the same items have rows that are alike. -/
theorem alike_of_rounds {spec : LoopSpec} {insts insts' : List Instance} {items : List Value}
    (hs : e.frames.Ordered) (hs' : e'.frames.Ordered)
    (hout : e.outlook root (g.label x).frame = e'.outlook root' (g'.label y).frame)
    (h : List.Forall₂ (g.Round e x spec) insts items)
    (h' : List.Forall₂ (g'.Round e' y spec) insts' items) :
    List.Forall₂ (e.Alike root g e' root' g') (insts.flatMap (·.nodes)) (insts'.flatMap (·.nodes)) := by
  induction h generalizing insts' with
  | nil =>
    cases h'
    exact .nil
  | cons hround _ ih =>
    obtain _ | ⟨hround', h'⟩ := h'
    rw [List.flatMap_cons, List.flatMap_cons]
    refine List.rel_append (alike_of_row hround.row hround'.row ?_) (ih h')
    rw [outlook_binds hs hround.binds, outlook_binds hs' hround'.binds, hout]

/-- What fills loops over the same items is alike. -/
theorem alike_of_filled {spec : LoopSpec} {insts insts' : List Instance} {items : List Value}
    (hs : e.frames.Ordered) (hs' : e'.frames.Ordered)
    (hout : e.outlook root (g.label x).frame = e'.outlook root' (g'.label y).frame)
    (h : List.Forall₂ (g.Round e x spec) insts items)
    (h' : List.Forall₂ (g'.Round e' y spec) insts' items) (hfilled : g.Filled x spec insts ids)
    (hfilled' : g'.Filled y spec insts' ids') :
    List.Forall₂ (e.Alike root g e' root' g') ids ids' := by
  have hlength : insts.length = insts'.length := h.length_eq.trans h'.length_eq.symm
  unfold Plan.Filled at hfilled hfilled'
  by_cases hinsts : insts = []
  · -- both show the empty case, or neither does
    have hinsts' : insts' = [] := List.length_eq_zero_iff.1 (hlength ▸ List.length_eq_zero_iff.2 hinsts)
    rw [if_pos hinsts] at hfilled
    rw [if_pos hinsts'] at hfilled'
    exact alike_of_row hfilled hfilled' hout
  · have hinsts' : insts' ≠ [] := fun hnil =>
      hinsts (List.length_eq_zero_iff.1 (hlength.trans (List.length_eq_zero_iff.2 hnil)))
    rw [if_neg hinsts] at hfilled
    rw [if_neg hinsts'] at hfilled'
    rw [hfilled, hfilled']
    exact alike_of_rounds hs hs' hout h h'

end Engine

open Engine

namespace Plan.Stands

variable {e e' : Engine} {g g' : Plan} {root root' x y : NodeId} {Arises Arises' : Value → Prop}
  {o o' : Outlook} {n n' : RenderNode} {step : Step} {sight sight' : Sight}

/-- Nodes that stand for the same step and show the same have the same line, and their children are
alike. The line of the root tells something else. -/
theorem alike (hs : e.frames.Ordered) (hs' : e'.frames.Ordered)
    (hout : e.outlook root (g.label x).frame = e'.outlook root' (g'.label y).frame)
    (h : g.Stands Arises e o x n step sight) (h' : g'.Stands Arises' e' o' y n' step sight')
    (hsight : sight = sight') : (step.Selective → n.kind.outline = n'.kind.outline) ∧
      List.Forall₂ (e.Alike root g e' root' g') n.children n'.children := by
  cases h with
  | element kind tag_eq actions_eq overlay added expr fixed children =>
    cases h' with
    | element kind' tag_eq' actions_eq' overlay' added' expr' fixed' children' =>
      have hstate := Sight.state.inj hsight
      refine ⟨fun _ => ?_, alike_of_row children children' hout⟩
      rw [kind, kind']
      exact ElementData.outline_congr (tag_eq.trans tag_eq'.symm) hstate
  | text kind fixed children =>
    cases h' with
    | text kind' fixed' children' =>
      have hshown := Sight.text.inj hsight
      rw [kind, kind', children, children', hshown]
      exact ⟨fun _ => rfl, .nil⟩
  | choice kind branches_eq reactive_eq children =>
    cases h' with
    | choice kind' branches_eq' reactive_eq' children' =>
      have hselected := Sight.branch.inj hsight
      rw [hselected] at children
      refine ⟨fun _ => ?_, alike_of_row children children' hout⟩
      rw [kind, kind']
      unfold RenderKind.outline
      dsimp only
      rw [hselected]
  | loop kind spec_eq arise state showing rounds frames children =>
    cases h' with
    | loop kind' spec_eq' arise' state' showing' rounds' frames' children' =>
      obtain rfl := Sight.items.inj hsight
      refine ⟨fun _ => ?_, ?_⟩
      · rw [kind, kind']
        rfl
      · exact alike_of_filled hs hs' hout rounds rounds' children children'
  | set kind name_eq value_eq body_eq arise home binds children =>
    cases h' with
    | set kind' name_eq' value_eq' body_eq' arise' home' binds' children' =>
      have hvalue := Sight.value.inj hsight
      refine ⟨fun _ => ?_, alike_of_row children children' ?_⟩
      · rw [kind, kind']
        unfold RenderKind.outline
        dsimp only
        rw [name_eq, name_eq']
      · rw [outlook_binds hs binds, outlook_binds hs' binds', hout, hvalue]
  | top children =>
    cases h' with
    | top children' =>
      exact ⟨nofun, alike_of_row children children' hout⟩

end Plan.Stands

namespace Engine.Laid

variable {e e' : Engine} {g g' : Plan} {root root' x y : NodeId} {b : Body} {Start : Outlook → Prop}
  {Busy Stale : NodeId → Prop} {n n' : RenderNode}

/-- The line of the root tells the name of the component. -/
theorem outline_root (h : e.Laid b Start root g Busy Stale)
    (hn : e.node? root = some n) : n.kind.outline = "[" ++ e.contextName root ++ "]" := by
  obtain ⟨m, data, hm, hkind, -⟩ := h.grounded
  obtain rfl := Option.some.inj (hn.symm.trans hm)
  unfold contextName context?
  rw [hn, Option.bind_some, hkind]
  rfl

/-- Other nodes than the root stand for selective steps. -/
theorem selective (hb : b.Suits Start) (h : e.Laid b Start root g (fun _ => False) fun _ => False)
    (hx : e.contains x = true) (hroot : x ≠ root) : (g.label x).step.Selective :=
  (hb.arrives (h.arrives hb hx hroot fun _ _ => ⟨id, id⟩)).1

/-- Nodes that are alike are both the root or both another node. -/
theorem root_of_alike (hb : b.Suits Start) (h : e.Laid b Start root g (fun _ => False) fun _ => False)
    (h' : e'.Laid b Start root' g' (fun _ => False) fun _ => False) (hy : e'.contains y = true)
    (halike : e.Alike root g e' root' g' root y) : y = root' := by
  by_contra hne
  have hstep := h'.selective hb hy hne
  rw [← halike.step, h.top] at hstep
  cases hstep

/-- Nodes that are alike have the same line, and their children are alike. -/
theorem alike (hb : b.Suits Start) (h : e.Laid b Start root g (fun _ => False) fun _ => False)
    (h' : e'.Laid b Start root' g' (fun _ => False) fun _ => False) (hn : e.node? x = some n)
    (hn' : e'.node? y = some n') (halike : e.Alike root g e' root' g' x y) :
    n.kind.outline = n'.kind.outline ∧
      List.Forall₂ (e.Alike root g e' root' g') n.children n'.children := by
  obtain ⟨sight, hstands, hsight⟩ := h.settled hn id
  obtain ⟨sight', hstands', hsight'⟩ := h'.settled hn' id
  -- each shows what a look finds, and the look is the same
  have hsame : sight = sight' := by
    rw [(hsight id).1, (hsight' id).1, halike.step, halike.outlook]
  rw [← halike.step] at hstands'
  obtain ⟨hline, hchildren⟩ := hstands.alike h.ordered h'.ordered halike.outlook hstands' hsame
  refine ⟨?_, hchildren⟩
  by_cases hx : x = root
  · subst hx
    obtain rfl := root_of_alike hb h h' (contains_iff.2 ⟨n', hn'⟩) halike
    have hname : e.contextName x = e'.contextName y := congrArg Outlook.component halike.outlook
    rw [h.outline_root hn, h'.outline_root hn', hname]
  · exact hline (h.selective hb (contains_iff.2 ⟨n, hn⟩) hx)

/-- No path from a child exceeds a depth if none from the parent exceeds one more. -/
theorem lt_of_child (h : e.Laid b Start root g Busy Stale) (hn : e.node? x = some n) {c : NodeId}
    (hc : c ∈ n.children) {depth : Nat} (hdepth : ∀ k z, e.shape.Steps x k z → k < depth + 1) :
    e.contains c = true ∧ ∀ k z, e.shape.Steps c k z → k < depth := by
  obtain ⟨-, nc, hnc, -⟩ := h.exists_child hn hc
  have hparent := h.tree.child x n.shape c (shape_of_node? hn) hc
  exact ⟨contains_iff.2 ⟨nc, hnc⟩, fun k z hk =>
    Nat.lt_of_succ_lt_succ (hdepth (k + 1) z (hk.cons (shape_of_node? hn) hparent))⟩

/-- Subtrees whose roots are alike have the same lines, down to depths that no path exceeds. -/
theorem outlineIn_eq (hb : b.Suits Start)
    (h : e.Laid b Start root g (fun _ => False) fun _ => False)
    (h' : e'.Laid b Start root' g' (fun _ => False) fun _ => False) (depth : Nat) :
    ∀ (depth' level : Nat) {x y}, e.contains x = true → e'.contains y = true →
      e.Alike root g e' root' g' x y → (∀ k z, e.shape.Steps x k z → k < depth) →
      (∀ k z, e'.shape.Steps y k z → k < depth') →
      e.outlineIn depth level x = e'.outlineIn depth' level y := by
  induction depth with
  | zero =>
    intro depth' level x y hx hy halike hdepth hdepth'
    obtain ⟨n, hn⟩ := contains_iff.1 hx
    exact absurd (hdepth 0 x (.zero (shape_of_node? hn))) (Nat.not_lt_zero 0)
  | succ depth ih =>
    intro depth' level x y hx hy halike hdepth hdepth'
    obtain ⟨n, hn⟩ := contains_iff.1 hx
    obtain ⟨n', hn'⟩ := contains_iff.1 hy
    cases depth' with
    | zero => exact absurd (hdepth' 0 y (.zero (shape_of_node? hn'))) (Nat.not_lt_zero 0)
    | succ depth' =>
      obtain ⟨hline, hchildren⟩ := h.alike hb h' hn hn' halike
      -- the children are alike in pairs; each of a pair is a child, to which the depths apply
      have hright : List.Forall₂ (fun c c' => c' ∈ n'.children ∧ e.Alike root g e' root' g' c c')
          n.children n'.children :=
        ((List.forall₂_and_left n'.children n.children).2 ⟨fun _ hc => hc, hchildren.flip⟩).flip
      have hmem := (List.forall₂_and_left n.children n'.children).2 ⟨fun _ hc => hc, hright⟩
      have hlines : n.children.map (e.outlineIn depth (level + 1)) =
          n'.children.map (e'.outlineIn depth' (level + 1)) := by
        rw [← List.forall₂_eq_eq_eq, List.forall₂_map_left_iff, List.forall₂_map_right_iff]
        refine hmem.imp fun c c' hsame => ?_
        obtain ⟨hc, hc', hlike⟩ := hsame
        obtain ⟨hlive, hbound⟩ := h.lt_of_child hn hc hdepth
        obtain ⟨hlive', hbound'⟩ := h'.lt_of_child hn' hc' hdepth'
        exact ih depth' (level + 1) hlive hlive' hlike hbound hbound'
      unfold outlineIn
      rw [hn, hn']
      dsimp only
      rw [hline, List.flatMap_def, List.flatMap_def, hlines]

/-- If two engines are laid out by one body and see the same at their roots, their outlines are
equal. -/
theorem outline_eq (hb : b.Suits Start)
    (h : e.Laid b Start root g (fun _ => False) fun _ => False)
    (h' : e'.Laid b Start root' g' (fun _ => False) fun _ => False)
    (hout : e.outlook root none = e'.outlook root' none) : e.outline root = e'.outline root' := by
  have halike : e.Alike root g e' root' g' root root' := by
    refine ⟨?_, ?_⟩
    · rw [h.top, h'.top]
    · rw [h.top, h'.top]
      exact hout
  unfold outline
  rw [h.outlineIn_eq hb h' e.chainBound e'.chainBound 0 h.live_root h'.live_root halike
    (fun k z hk => Nat.lt_succ_of_lt (AgreesUnder.lt_size (fun _ _ => rfl) h.valid h.tree hk))
    (fun k z hk => Nat.lt_succ_of_lt (AgreesUnder.lt_size (fun _ _ => rfl) h'.valid h'.tree hk))]

end Engine.Laid
end ReactiveView
