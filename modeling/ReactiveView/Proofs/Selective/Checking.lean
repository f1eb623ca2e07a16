import ReactiveView.Proofs.Selective.Layout

/-!
# Checks of bodies

Whether a body is selective, and which values its loops and sets find from certain outlooks, can be
computed as far as steps are nested at most so deep (`Step.selectiveWithin`, `Body.found`). The checks
are sound: `Step.selective_of_within` proves the steps selective, and `Body.mem_found` says that no
other values arise. Among null, truth values, integers, texts and lists of these, operators take only
equal values as equal (`Value.eq_of_same`), and so they do among the values that arise if only such
values are found (`Body.eq_of_same_of_found`).
-/

namespace ReactiveView

/-! ## Values that are equal to no other -/

namespace Value

mutual

/-- Whether a value is made of null, truth values, integers, texts and lists. -/
def exact : Value → Bool
  | null | bool _ | int _ | str _ => true
  | list items => exactItems items
  | _ => false
termination_by structural v => v

/-- Whether all items are exact. -/
def exactItems : List Value → Bool
  | [] => true
  | item :: items => exact item && exactItems items
termination_by structural items => items

end

mutual

/-- Operators take exact values as equal only if they are. -/
theorem eq_of_same : ∀ {v w : Value}, v.exact = true → w.exact = true → v.same w = true → v = w
  | null, w, _, _, h => by cases w <;> simp_all [same]
  | bool a, w, _, _, h => by cases w <;> simp_all [same]
  | int a, w, _, hw, h => by cases w <;> simp_all [same, exact]
  | str a, w, _, _, h => by cases w <;> simp_all [same]
  | list items, w, hv, hw, h => by
    cases w with
    | list items' =>
      unfold exact at hv hw
      unfold same at h
      rw [eq_of_sameItems hv hw h]
    | _ => simp [same] at h
  | float _, _, hv, _, _ | map _, _, hv, _, _ | node _, _, hv, _, _ | func _, _, hv, _, _
  | builtin _, _, hv, _, _ => by simp [exact] at hv

/-- Lists of exact values are taken as equal only if they are. -/
theorem eq_of_sameItems : ∀ {vs ws : List Value}, exactItems vs = true → exactItems ws = true →
    sameItems vs ws = true → vs = ws
  | [], ws, _, _, h => by cases ws <;> simp_all [sameItems]
  | v :: vs, ws, hv, hw, h => by
    cases ws with
    | nil => simp [sameItems] at h
    | cons w ws =>
      simp only [exactItems, sameItems, Bool.and_eq_true] at hv hw h
      rw [eq_of_same hv.1 hw.1 h.1, eq_of_sameItems hv.2 hw.2 h.2]

end

end Value

/-! ## Steps that are nested so deep -/

namespace Step

/-- Whether a step is selective, and nests steps at most so deep. -/
def selectiveWithin : (depth : Nat) → Step → Bool
  | 0, _ => false
  | _ + 1, text source => source.selective
  | depth + 1, element _ actions content =>
    actions.all (·.selective) && content.expr?.all (·.selective) &&
      content.steps.all (selectiveWithin depth)
  | depth + 1, choice branches reactive =>
    branches.all fun b => b.selective reactive && b.body.steps.all (selectiveWithin depth)
  | depth + 1, loop spec =>
    spec.iterable.selective && spec.separable && spec.body.steps.all (selectiveWithin depth) &&
      spec.emptySteps.all (selectiveWithin depth)
  | depth + 1, set _ value body => value.selective && body.steps.all (selectiveWithin depth)
  | _, _ => false

/-- The values that the loops and sets of a step find from an outlook, as far as steps are nested at
most so deep. -/
def found : (depth : Nat) → Step → Outlook → List Value
  | 0, _, _ => []
  | depth + 1, element _ _ content, o => content.steps.flatMap (found depth · o)
  | depth + 1, choice branches _, o =>
    (Branch.steps branches ((Look.branch 0 branches).result o)).flatMap (found depth · o)
  | depth + 1, loop spec, o =>
    let items := (Look.items spec.iterable).result o
    items ++ items.flatMap (fun v => spec.body.steps.flatMap (found depth · (o.bind spec.var v))) ++
      spec.emptySteps.flatMap (found depth · o)
  | depth + 1, set name value body, o =>
    let v := (Look.value value).result o
    v :: body.steps.flatMap (found depth · (o.bind name v))
  | _, _, _ => []

/-- Nothing passes at no depth. -/
theorem exists_succ {depth : Nat} {s : Step} (h : s.selectiveWithin depth = true) :
    ∃ d, depth = d + 1 := by
  cases depth with
  | zero => cases h
  | succ d => exact ⟨d, rfl⟩

/-- The check of a step is sound. -/
theorem selective_of_within : ∀ {depth : Nat} {s : Step}, s.selectiveWithin depth = true → s.Selective
  | depth + 1, text source, h => .text h
  | depth + 1, element tag actions content, h => by
    simp only [selectiveWithin, Bool.and_eq_true, List.all_eq_true] at h
    obtain ⟨⟨hactions, hexpr⟩, hsteps⟩ := h
    cases content with
    | text source => exact .leaf hactions hexpr
    | body body => exact .element hactions fun s hs => selective_of_within (hsteps s hs)
  | depth + 1, choice branches reactive, h => by
    simp only [selectiveWithin, Bool.and_eq_true, List.all_eq_true] at h
    exact .choice (fun b hb => (h b hb).1) fun b hb s hs => selective_of_within ((h b hb).2 s hs)
  | depth + 1, loop spec, h => by
    simp only [selectiveWithin, Bool.and_eq_true, List.all_eq_true] at h
    obtain ⟨⟨⟨hiterable, hidentity⟩, hbody⟩, hempty⟩ := h
    refine .loop hiterable hidentity (fun s hs => selective_of_within (hbody s hs))
      fun body hspec s hs => selective_of_within (hempty s ?_)
    unfold LoopSpec.emptySteps
    rw [hspec]
    exact hs
  | depth + 1, set name value body, h => by
    simp only [selectiveWithin, Bool.and_eq_true, List.all_eq_true] at h
    exact .set h.1 fun s hs => selective_of_within (h.2 s hs)

end Step

/-! ## Values that arise -/

namespace Body

variable {b : Body} {Start : Outlook → Prop} {depth : Nat} {outlooks : List Outlook}

/-- The values that the loops and sets of a body find from certain outlooks, as far as steps are nested
at most so deep. -/
def found (b : Body) (depth : Nat) (outlooks : List Outlook) : List Value :=
  outlooks.flatMap fun o => b.steps.flatMap (·.found depth o)

/-- Wherever a step arrives, what it finds is found. -/
theorem Arrives.found (hdepth : ∀ s ∈ b.steps, s.selectiveWithin depth = true)
    (hstart : ∀ o, Start o → o ∈ outlooks) {s : Step} {o : Outlook} (h : b.Arrives Start s o) :
    ∃ d, s.selectiveWithin d = true ∧ ∀ v ∈ s.found d o, v ∈ b.found depth outlooks := by
  induction h with
  | top start mem =>
    refine ⟨depth, hdepth _ mem, fun v hv => ?_⟩
    exact List.mem_flatMap.2 ⟨_, hstart _ start, List.mem_flatMap.2 ⟨_, mem, hv⟩⟩
  | element outer mem ih =>
    obtain ⟨d, hd, hfound⟩ := ih
    obtain ⟨d, rfl⟩ := Step.exists_succ hd
    simp only [Step.selectiveWithin, Bool.and_eq_true, List.all_eq_true] at hd
    exact ⟨d, hd.2 _ mem, fun v hv => hfound v (List.mem_flatMap.2 ⟨_, mem, hv⟩)⟩
  | branch outer mem ih =>
    obtain ⟨d, hd, hfound⟩ := ih
    obtain ⟨d, rfl⟩ := Step.exists_succ hd
    simp only [Step.selectiveWithin, Bool.and_eq_true, List.all_eq_true] at hd
    obtain ⟨branch, hbranch, hs⟩ := Branch.mem_steps mem
    exact ⟨d, (hd branch hbranch).2 _ hs, fun v hv => hfound v (List.mem_flatMap.2 ⟨_, mem, hv⟩)⟩
  | item outer found mem ih =>
    obtain ⟨d, hd, hfound⟩ := ih
    obtain ⟨d, rfl⟩ := Step.exists_succ hd
    simp only [Step.selectiveWithin, Bool.and_eq_true, List.all_eq_true] at hd
    refine ⟨d, hd.1.2 _ mem, fun v hv => hfound v ?_⟩
    refine List.mem_append_left _ (List.mem_append_right _ ?_)
    exact List.mem_flatMap.2 ⟨_, found, List.mem_flatMap.2 ⟨_, mem, hv⟩⟩
  | empty outer found mem ih =>
    obtain ⟨d, hd, hfound⟩ := ih
    obtain ⟨d, rfl⟩ := Step.exists_succ hd
    simp only [Step.selectiveWithin, Bool.and_eq_true, List.all_eq_true] at hd
    refine ⟨d, hd.2 _ mem, fun v hv => hfound v ?_⟩
    exact List.mem_append_right _ (List.mem_flatMap.2 ⟨_, mem, hv⟩)
  | bound outer mem ih =>
    obtain ⟨d, hd, hfound⟩ := ih
    obtain ⟨d, rfl⟩ := Step.exists_succ hd
    simp only [Step.selectiveWithin, Bool.and_eq_true, List.all_eq_true] at hd
    exact ⟨d, hd.2 _ mem, fun v hv =>
      hfound v (List.mem_cons_of_mem _ (List.mem_flatMap.2 ⟨_, mem, hv⟩))⟩

/-- No values arise but those that are found. -/
theorem mem_found (hdepth : ∀ s ∈ b.steps, s.selectiveWithin depth = true)
    (hstart : ∀ o, Start o → o ∈ outlooks) {v : Value} (h : b.Arises Start v) :
    v ∈ b.found depth outlooks := by
  cases h with
  | value at_set =>
    obtain ⟨d, hd, hfound⟩ := at_set.found hdepth hstart
    obtain ⟨d, rfl⟩ := Step.exists_succ hd
    exact hfound _ List.mem_cons_self
  | item at_loop found =>
    obtain ⟨d, hd, hfound⟩ := at_loop.found hdepth hstart
    obtain ⟨d, rfl⟩ := Step.exists_succ hd
    exact hfound _ (List.mem_append_left _ (List.mem_append_left _ found))

/-- If what is found is exact, operators take values that arise as equal only if they are. -/
theorem eq_of_same_of_found (hdepth : ∀ s ∈ b.steps, s.selectiveWithin depth = true)
    (hstart : ∀ o, Start o → o ∈ outlooks) (hexact : ∀ v ∈ b.found depth outlooks, v.exact = true)
    (v w : Value) (hv : b.Arises Start v) (hw : b.Arises Start w) (hsame : v.same w = true) : v = w :=
  Value.eq_of_same (hexact v (mem_found hdepth hstart hv)) (hexact w (mem_found hdepth hstart hw)) hsame

end Body
end ReactiveView
