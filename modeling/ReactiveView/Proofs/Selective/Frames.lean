import ReactiveView.Tree.Frame

/-!
# Chains of frames

Enclosing frames are older than those that they enclose (`FrameStore.Ordered`). Then a chain of
frames is no longer than the store, and a lookup is what one frame binds or else a lookup in the
enclosing one (`FrameStore.lookup?_some`). What is found depends on the frames of the chain only
(`FrameStore.lookup?_congr`).

Loops and sets make frames for a single name, besides `forloop` (`FrameStore.Binds`).
-/

namespace ReactiveView

/-- Writing other keys leaves the value of a key. -/
theorem OrderedMap.get?_insertAll_of_ne {κ α : Type} [DecidableEq κ] {k : κ} (m : OrderedMap κ α)
    {pairs : List (κ × α)} (h : ∀ p ∈ pairs, p.1 ≠ k) : (m.insertAll pairs).get? k = m.get? k := by
  unfold insertAll
  induction pairs generalizing m with
  | nil => rfl
  | cons p pairs ih =>
    rw [List.foldl_cons, ih _ fun q hq => h q (List.mem_cons_of_mem p hq)]
    exact m.get?_insert_of_ne (h p List.mem_cons_self).symm p.2

namespace Scope

variable {scope : Scope} {name x : String} {v w : Value}

/-- Writing a variable leaves the others. -/
theorem get?_write_of_ne (scope : Scope) (h : x ≠ name) (v : Value) :
    (scope.write name v).get? x = scope.get? x := by
  unfold write write?
  split
  · split
    · rfl
    · exact OrderedMap.get?_insert_of_ne scope h v
  · exact OrderedMap.get?_insert_of_ne scope h v

/-- What a variable is after it was written. -/
theorem get?_write_self (scope : Scope) (h : scope.get? name = some v)
    (hsame : v.same w = true → v = w) : (scope.write name w).get? name = some w := by
  unfold write write?
  rw [h]
  dsimp only
  split
  · rename_i heq
    rw [Option.getD_none, h, hsame heq]
  · exact OrderedMap.get?_insert_self scope name w

end Scope

namespace FrameStore

variable {s s' : FrameStore} {f g : FrameId} {fr : Frame} {name : String}

/-- Every enclosing frame is older than the frame that it encloses. -/
def Ordered (s : FrameStore) : Prop := ∀ ⦃f fr p⦄, s.get? f = some fr → fr.parent = some p → p < f

/-- A frame of the store. -/
theorem lt_of_get? (h : s.get? f = some fr) : f < s.frames.size :=
  (Array.getElem?_eq_some_iff.1 h).1

/-- The store without frames is ordered. -/
theorem ordered_empty : Ordered empty := fun _ _ _ h => by cases h

/-! ## Lookups -/

/-- A walk that is long enough finds what any such walk finds. -/
theorem lookupIn_eq (hs : s.Ordered) (name : String) : ∀ (k k' : Nat) (frame : Option FrameId),
    (∀ f, frame = some f → f < k ∧ f < k') →
    s.lookupIn name k frame = s.lookupIn name k' frame
  | k, k', none, _ => by cases k <;> cases k' <;> rfl
  | 0, _, some f, h => absurd (h f rfl).1 (Nat.not_lt_zero f)
  | _, 0, some f, h => absurd (h f rfl).2 (Nat.not_lt_zero f)
  -- each step of a walk leads to an older frame, so both walks are long enough for what is left
  | k + 1, k' + 1, some f, h => by
    obtain ⟨hk, hk'⟩ := h f rfl
    unfold lookupIn
    cases hfr : s.get? f with
    | none => rfl
    | some fr =>
      dsimp only
      cases fr.bindings.get? name with
      | some v => rfl
      | none =>
        refine lookupIn_eq hs name k k' fr.parent fun p hp => ?_
        have hpf := hs hfr hp
        exact ⟨Nat.lt_of_lt_of_le hpf (Nat.le_of_lt_succ hk),
          Nat.lt_of_lt_of_le hpf (Nat.le_of_lt_succ hk')⟩

/-- Without a frame nothing is found. -/
@[simp] theorem lookup?_none (s : FrameStore) (name : String) : s.lookup? none name = none := by
  unfold lookup?
  cases s.frames.size <;> rfl

/-- A lookup finds what a frame binds, or else what the enclosing one finds. -/
theorem lookup?_some (hs : s.Ordered) (h : s.get? f = some fr) (name : String) :
    s.lookup? (some f) name = (fr.bindings.get? name).or (s.lookup? fr.parent name) := by
  have hlt := lt_of_get? h
  unfold lookup?
  obtain ⟨k, hk⟩ := Nat.exists_eq_succ_of_ne_zero (Nat.ne_zero_of_lt hlt)
  rw [hk] at hlt ⊢
  rw [lookupIn, h]
  dsimp only
  cases fr.bindings.get? name with
  | some v => rfl
  | none =>
    rw [Option.none_or]
    refine lookupIn_eq hs name k (k + 1) fr.parent fun p hp => ?_
    have hpk := Nat.lt_of_lt_of_le (hs h hp) (Nat.le_of_lt_succ hlt)
    exact ⟨hpk, Nat.lt_succ_of_lt hpk⟩

/-! ## Chains -/

/-- A frame is in the chain that begins with another one. -/
inductive Chain (s : FrameStore) : Option FrameId → FrameId → Prop
  /-- The first frame. -/
  | head {f : FrameId} : Chain s (some f) f
  /-- An enclosing frame. -/
  | enclosing {f g : FrameId} {fr : Frame} (h : s.get? f = some fr) (hg : Chain s fr.parent g) :
      Chain s (some f) g

/-- All frames of a chain are in the store if the first one is. -/
theorem Chain.exists_get? (hs : s.Ordered) {frame : Option FrameId} {f : FrameId}
    (hf : s.Chain frame f) (hlt : ∀ g, frame = some g → g < s.frames.size) :
    ∃ fr, s.get? f = some fr := by
  induction hf with
  | head => exact ⟨_, Array.getElem?_eq_getElem (hlt _ rfl)⟩
  | enclosing h _ ih => exact ih fun p hp => Nat.lt_trans (hs h hp) (hlt _ rfl)

/-- What is found depends on the frames of the chain only. -/
theorem lookup?_congr (hs : s.Ordered) (hs' : s'.Ordered) (name : String) :
    ∀ (k : Nat) (frame : Option FrameId), (∀ f, frame = some f → f < k) →
      (∀ f, s.Chain frame f → ∃ fr fr', s.get? f = some fr ∧ s'.get? f = some fr' ∧
        fr'.parent = fr.parent ∧ fr'.bindings.get? name = fr.bindings.get? name) →
      s'.lookup? frame name = s.lookup? frame name
  | _, none, _, _ => by rw [lookup?_none, lookup?_none]
  | 0, some f, hk, _ => absurd (hk f rfl) (Nat.not_lt_zero f)
  | k + 1, some f, hk, h => by
    obtain ⟨fr, fr', hfr, hfr', hparent, hbindings⟩ := h f .head
    rw [lookup?_some hs hfr, lookup?_some hs' hfr', hbindings, hparent]
    rw [lookup?_congr hs hs' name k fr.parent (fun p hp => ?_)
      fun g hg => h g (.enclosing hfr hg)]
    exact Nat.lt_of_lt_of_le (hs hfr hp) (Nat.le_of_lt_succ (hk f rfl))

/-! ## New frames -/

/-- A new frame comes behind the others. -/
theorem get?_add (s : FrameStore) (parent : Option FrameId) (bindings : Scope) (f : FrameId) :
    (s.add parent bindings).2.get? f =
      if f = s.frames.size then some ⟨parent, bindings⟩ else s.get? f := by
  unfold add get?
  rw [Array.getElem?_push]

/-- A new frame is inside an older one. -/
theorem Ordered.add (hs : s.Ordered) {parent : Option FrameId} (bindings : Scope)
    (hparent : ∀ p, parent = some p → p < s.frames.size) : (s.add parent bindings).2.Ordered := by
  intro f fr p hfr hp
  rw [get?_add] at hfr
  split at hfr
  · rename_i hf
    obtain rfl := Option.some.inj hfr
    rw [hf]
    exact hparent p hp
  · exact hs hfr hp

/-! ## Frames of one name -/

/-- A frame is inside another one and binds a name to a value. What it binds as `forloop` does not
matter. -/
def Binds (s : FrameStore) (f : FrameId) (parent : Option FrameId) (name : String) (v : Value) :
    Prop :=
  ∃ fr, s.get? f = some fr ∧ fr.parent = parent ∧
    ∀ x, x ≠ "forloop" → fr.bindings.get? x = if x = name then some v else none

/-- A frame with a binding, and possibly another one for `forloop`. -/
theorem binds_ofList {parent : Option FrameId} {v : Value} {rest : List (String × Value)}
    (h : s.get? f = some ⟨parent, .ofList ((name, v) :: rest)⟩)
    (hrest : ∀ p ∈ rest, p.1 = "forloop") : s.Binds f parent name v := by
  refine ⟨_, h, rfl, fun x hx => ?_⟩
  -- the entries behind the first one do not change what it binds
  change ((OrderedMap.empty.insert name v).insertAll rest).get? x = _
  rw [OrderedMap.get?_insertAll_of_ne _ fun p hp heq => hx (heq.symm.trans (hrest p hp))]
  by_cases hname : x = name
  · rw [if_pos hname, hname, OrderedMap.get?_insert_self]
  · rw [if_neg hname, OrderedMap.get?_insert_of_ne _ hname]
    rfl

/-- Frames that stay bind what they bind. -/
theorem Binds.congr {parent : Option FrameId} {v : Value} (h : s.Binds f parent name v)
    (hf : ∀ fr, s.get? f = some fr → s'.get? f = some fr) : s'.Binds f parent name v := by
  obtain ⟨fr, hfr, hrest⟩ := h
  exact ⟨fr, hf fr hfr, hrest⟩

/-- What is found from a frame of one name. -/
theorem Binds.lookup? (hs : s.Ordered) {parent : Option FrameId} {v : Value}
    (h : s.Binds f parent name v) {x : String} (hx : x ≠ "forloop") :
    s.lookup? (some f) x = if x = name then some v else s.lookup? parent x := by
  obtain ⟨fr, hfr, rfl, hbindings⟩ := h
  rw [lookup?_some hs hfr, hbindings x hx]
  split
  · rfl
  · rfl

/-! ## Binding again -/

/-- Binding a name again leaves the other frames. -/
theorem get?_rebind_of_ne (s : FrameStore) (v : Value) (h : g ≠ f) :
    (s.rebind f name v).2.get? g = s.get? g := by
  unfold rebind
  split
  · rfl
  · split
    · rfl
    · exact Array.getElem?_setIfInBounds_ne (Ne.symm h)

/-- Binding a name of a frame again: its value is replaced unless it is equal to the new one. -/
theorem get?_rebind (h : s.get? f = some fr) (v : Value) :
    (s.rebind f name v).2.get? f = some { fr with bindings := fr.bindings.write name v } ∧
      ((s.rebind f name v).1 = false → (s.rebind f name v).2 = s) := by
  unfold rebind Scope.write
  rw [h]
  dsimp only
  split
  · rename_i hwrite
    rw [hwrite]
    exact ⟨h, fun _ => rfl⟩
  · rename_i bindings hwrite
    rw [hwrite]
    refine ⟨?_, fun hfalse => by cases hfalse⟩
    unfold get?
    exact Array.getElem?_setIfInBounds_self_of_lt (lt_of_get? h)

/-- Binding a name again keeps the order. -/
theorem Ordered.rebind (hs : s.Ordered) (f : FrameId) (name : String) (v : Value) :
    (s.rebind f name v).2.Ordered := by
  intro g fr p hfr hp
  by_cases hg : g = f
  · -- what is written is a binding, and the enclosing frame stays
    subst hg
    cases hold : s.get? g with
    | none =>
      unfold FrameStore.rebind at hfr
      rw [hold] at hfr
      rw [hold] at hfr
      cases hfr
    | some old =>
      rw [(get?_rebind hold v).1] at hfr
      obtain rfl := Option.some.inj hfr
      exact hs hold hp
  · rw [get?_rebind_of_ne s v hg] at hfr
    exact hs hfr hp

/-- A frame of one name for which the name is bound again. -/
theorem Binds.rebind {parent : Option FrameId} {v w : Value} (h : s.Binds f parent name v)
    (hsame : v.same w = true → v = w) : (s.rebind f name w).2.Binds f parent name w := by
  obtain ⟨fr, hfr, hparent, hbindings⟩ := h
  refine ⟨_, (get?_rebind hfr w).1, hparent, fun x hx => ?_⟩
  dsimp only
  by_cases hname : x = name
  · subst hname
    -- a value that counts as equal is not replaced, and then it is the new one by assumption
    rw [if_pos rfl, Scope.get?_write_self _ ((hbindings x hx).trans (if_pos rfl)) hsame]
  · rw [Scope.get?_write_of_ne _ hname, hbindings x hx, if_neg hname, if_neg hname]

/-- A frame of one name for which `forloop` is bound again. -/
theorem Binds.rebind_forloop {parent : Option FrameId} {v : Value} (h : s.Binds f parent name v)
    (w : Value) : (s.rebind f "forloop" w).2.Binds f parent name v := by
  obtain ⟨fr, hfr, hparent, hbindings⟩ := h
  refine ⟨_, (get?_rebind hfr w).1, hparent, fun x hx => ?_⟩
  exact (Scope.get?_write_of_ne _ hx _).trans (hbindings x hx)

end FrameStore
end ReactiveView
