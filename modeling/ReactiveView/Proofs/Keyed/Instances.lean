import Mathlib.Data.List.Pairwise
import ReactiveView.Proofs.Structure.Updating

/-!
# The instances of a loop with identities

What happens to the instances of a loop while it is brought in line with its items. The key of each
item is evaluated in turn, and the first item of each key is the one that counts
(`Render.wantedItems_gives`). Removing the instances that are not wanted takes away their subtrees and
leaves the nodes of the others (`Engine.live_dropInstances`, `Engine.dropInstances_survives`). Then the
instances of the wanted items stay as they are or are built from the first item of their key
(`Render.arrangeInstances_gives`), and what is built was not there before (`View.Places`).
-/

namespace ReactiveView

/-! ## Successes -/

/-- One operation after another, both of which succeed. -/
theorem Act.of_gives_bind_ok {α β : Type} {x : Act α} {f : α → Act β} {e e' : Engine} {b : β}
    (h : Act.Gives (x >>= f) e (.ok b) e') :
    ∃ a e₁, x.Gives e (.ok a) e₁ ∧ (f a).Gives e₁ (.ok b) e' := by
  rcases Act.gives_bind.1 h with h | ⟨err, -, hr⟩
  · exact h
  · cases hr

/-- The engine after a success. -/
theorem Act.of_gives_pure_ok {α : Type} {a b : α} {e e' : Engine}
    (h : Act.Gives (pure a) e (.ok b) e') : b = a ∧ e' = e := by
  obtain ⟨hb, he⟩ := Act.gives_pure.1 h
  exact ⟨Except.ok.inj hb, he⟩

namespace Render

open Act

variable {re : Reentry}

/-! ## The wanted items -/

/-- Take an item whose key and identity were found, unless there is one with its key. -/
def firstOf (wanted : OrderedMap Key (Value × Value)) (found : (Key × Value) × Value) :
    OrderedMap Key (Value × Value) :=
  if wanted.contains found.1.1 then wanted else wanted.insert found.1.1 (found.1.2, found.2)

/-- The keys of the items are evaluated in turn, and the first item of each key is taken. -/
theorem wantedItems_gives (spec : LoopSpec) (c : Cursor) (items : List Value) :
    ∀ {acc wanted : OrderedMap Key (Value × Value)} {e e' : Engine},
      (wantedItems re spec c items acc).Gives e (.ok wanted) e' →
        ∃ keyed, (items.mapM (loopKey re spec c)).Gives e (.ok keyed) e' ∧
          keyed.length = items.length ∧ wanted = (keyed.zip items).foldl firstOf acc := by
  induction items with
  | nil =>
    intro acc wanted e e' h
    obtain ⟨rfl, rfl⟩ := of_gives_pure_ok h
    exact ⟨[], gives_pure.2 ⟨rfl, rfl⟩, rfl, rfl⟩
  | cons item items ih =>
    intro acc wanted e e' h
    obtain ⟨⟨key, identity⟩, e₁, hkey, hrest⟩ := of_gives_bind_ok h
    obtain ⟨keyed, hkeyed, hlength, rfl⟩ := ih hrest
    refine ⟨(key, identity) :: keyed, ?_, by rw [List.length_cons, hlength, List.length_cons], rfl⟩
    rw [List.mapM_cons]
    exact gives_bind.2 (.inl ⟨_, e₁, hkey, gives_bind.2 (.inl ⟨_, e', hkeyed,
      gives_pure.2 ⟨rfl, rfl⟩⟩)⟩)

/-- The keys that are taken are those that were found, each at its first place. -/
theorem keys_foldl_firstOf (found : List ((Key × Value) × Value)) :
    ∀ wanted : OrderedMap Key (Value × Value), (found.foldl firstOf wanted).keys =
      wanted.keys ++ ((found.map (·.1.1)).filter fun key => !wanted.contains key).eraseDups := by
  induction found with
  | nil => exact fun wanted => (List.append_nil _).symm
  | cons p found ih =>
    intro wanted
    rw [List.foldl_cons, ih, firstOf, List.map_cons]
    split
    · rename_i hkey
      rw [List.filter_cons_of_neg (by simp [hkey])]
    · rename_i hkey
      have hnew : p.1.1 ∉ wanted.keys := fun hmem => hkey ((wanted.contains_iff _).2 hmem)
      have hrest : ∀ key, (!(wanted.insert p.1.1 (p.1.2, p.2)).contains key) =
          (!wanted.contains key && !key == p.1.1) := by
        intro key
        rw [Bool.eq_iff_iff]
        simp only [Bool.not_eq_true', Bool.and_eq_true, ← Bool.not_eq_true, wanted.contains_iff,
          OrderedMap.contains_iff, OrderedMap.keys_insert, if_neg hnew, List.mem_append,
          List.mem_singleton, not_or, beq_iff_eq]
      rw [List.filter_cons_of_pos (by simp [hkey]), List.eraseDups_cons, List.filter_filter,
        OrderedMap.keys_insert, if_neg hnew, List.append_assoc, List.singleton_append]
      congr 3
      refine List.filter_congr fun key _ => ?_
      rw [hrest, Bool.and_comm]

/-- What is taken under a key is the first item that was found with it. -/
theorem get?_foldl_firstOf (found : List ((Key × Value) × Value)) (key : Key) :
    ∀ wanted : OrderedMap Key (Value × Value), (found.foldl firstOf wanted).get? key =
      (wanted.get? key).or ((found.find? (·.1.1 == key)).map fun p => (p.1.2, p.2)) := by
  induction found with
  | nil => exact fun wanted => (Option.or_none).symm
  | cons p found ih =>
    intro wanted
    rw [List.foldl_cons, ih, firstOf, List.find?_cons]
    by_cases hkey : p.1.1 = key
    · rw [hkey, beq_self_eq_true]
      cases hfound : wanted.get? key with
      | some item =>
        rw [if_pos (by rw [OrderedMap.contains, hfound]; rfl), hfound]
        rfl
      | none =>
        rw [if_neg (by rw [OrderedMap.contains, hfound]; exact Bool.false_ne_true),
          OrderedMap.get?_insert_self]
        rfl
    · rw [beq_eq_false_iff_ne.2 hkey]
      split
      · rfl
      · rw [OrderedMap.get?_insert_of_ne _ (Ne.symm hkey)]

/-- The wanted items are the items of the keys that were found, the first of each key. -/
theorem wantedItems_firsts {spec : LoopSpec} {c : Cursor} {items : List Value}
    {wanted : OrderedMap Key (Value × Value)} {e e' : Engine}
    (h : (wantedItems re spec c items .empty).Gives e (.ok wanted) e') :
    ∃ keyed, (items.mapM (loopKey re spec c)).Gives e (.ok keyed) e' ∧
      keyed.length = items.length ∧ wanted.keys = (keyed.map (·.1)).eraseDups ∧
        ∀ key identity item, wanted.get? key = some (identity, item) →
          (keyed.zip items).find? (·.1.1 == key) = some ((key, identity), item) := by
  obtain ⟨keyed, hkeyed, hlength, rfl⟩ := wantedItems_gives spec c items h
  refine ⟨keyed, hkeyed, hlength, ?_, fun key identity item hget => ?_⟩
  · have hfst : (keyed.zip items).map (·.1.1) = keyed.map (·.1) := calc
      (keyed.zip items).map (·.1.1) = ((keyed.zip items).map Prod.fst).map (·.1) :=
        List.map_map.symm
      _ = keyed.map (·.1) := by rw [List.map_fst_zip hlength.le]
    have hall : (keyed.map (·.1)).filter (fun key =>
        !(OrderedMap.empty : OrderedMap Key (Value × Value)).contains key) = keyed.map (·.1) :=
      List.filter_eq_self.2 fun _ _ => rfl
    rw [keys_foldl_firstOf, hfst, hall]
    rfl
  · rw [get?_foldl_firstOf] at hget
    obtain ⟨⟨⟨key', _⟩, _⟩, hfound, hp⟩ := Option.map_eq_some_iff.1 hget
    have hkey : key' = key := by simpa using List.find?_some hfound
    cases hp
    rw [hfound, hkey]

/-! ## Keeping and building -/

/-- What arranging has given: an instance for each wanted item, and the nodes of the instances that
have another place than before. -/
structure Arrangement (re : Reentry) (spec : LoopSpec) (c : Cursor) (old : OrderedMap Key Instance)
    (index : Nat) (wanted : List (Key × Value × Value)) (arranged : List (Key × Instance))
    (moved : List NodeId) : Prop where
  /-- The keys are those of the items. -/
  keys : arranged.map (·.1) = wanted.map (·.1)
  /-- An instance that was there is kept. -/
  kept : ∀ key inst kept, (key, inst) ∈ arranged → old.get? key = some kept → inst = kept
  /-- An instance that was not there is built from its item. -/
  built : ∀ i key identity item, wanted[i]? = some (key, identity, item) → old.get? key = none →
    ∃ inst e₁ e₂, (key, inst) ∈ arranged ∧
      (buildInstance re spec c item (index + i) (some identity)).Gives e₁ (.ok inst) e₂
  /-- The nodes of kept instances whose place is another one. -/
  mem_moved : ∀ x, x ∈ moved ↔ ∃ i key kept, (wanted.map (·.1))[i]? = some key ∧
    old.get? key = some kept ∧ old.keys.idxOf? key ≠ some (index + i) ∧ x ∈ kept.nodes

variable {spec : LoopSpec} {c : Cursor} {old : OrderedMap Key Instance} {index : Nat}
  {wanted : List (Key × Value × Value)} {arranged : List (Key × Instance)} {moved : List NodeId}
  {key : Key} {identity item : Value} {inst kept : Instance}

/-- Nothing is wanted. -/
theorem Arrangement.nil : Arrangement re spec c old index [] [] [] where
  keys := rfl
  kept _ _ _ h := (List.not_mem_nil h).elim
  built _ _ _ _ h := by cases h
  mem_moved x := ⟨fun h => (List.not_mem_nil h).elim, fun ⟨i, _, _, h, _⟩ => by cases h⟩

/-- The nodes that have another place, with those of a further item before the others. -/
theorem Arrangement.mem_moved_cons (h : Arrangement re spec c old (index + 1) wanted arranged moved)
    (x : NodeId) : (∃ i key' kept', (((key, identity, item) :: wanted).map (·.1))[i]? = some key' ∧
      old.get? key' = some kept' ∧ old.keys.idxOf? key' ≠ some (index + i) ∧ x ∈ kept'.nodes) ↔
        (∃ kept', old.get? key = some kept' ∧ old.keys.idxOf? key ≠ some index ∧
          x ∈ kept'.nodes) ∨ x ∈ moved := by
  rw [h.mem_moved]
  constructor
  · rintro ⟨i, key', kept', hkey, hrest⟩
    cases i with
    | zero =>
      obtain rfl := Option.some.inj hkey
      exact .inl ⟨kept', hrest⟩
    | succ i =>
      refine .inr ⟨i, key', kept', hkey, ?_⟩
      rwa [Nat.add_assoc, Nat.add_comm 1 i]
  · rintro (⟨kept', hrest⟩ | ⟨i, key', kept', hkey, hrest⟩)
    · exact ⟨0, key, kept', rfl, hrest⟩
    · refine ⟨i + 1, key', kept', hkey, ?_⟩
      rwa [Nat.add_assoc, Nat.add_comm 1 i] at hrest

/-- The instance of an item is kept. -/
theorem Arrangement.cons_kept (hkept : old.get? key = some kept)
    (h : Arrangement re spec c old (index + 1) wanted arranged moved) :
    Arrangement re spec c old index ((key, identity, item) :: wanted) ((key, kept) :: arranged)
      (if old.keys.idxOf? key = some index then moved else kept.nodes ++ moved) where
  keys := by rw [List.map_cons, h.keys, List.map_cons]
  kept key' inst kept' hmem hkept' := by
    rcases List.mem_cons.1 hmem with heq | hmem
    · cases heq
      exact Option.some.inj (hkept.symm.trans hkept')
    · exact h.kept key' inst kept' hmem hkept'
  built i key' identity' item' hi hnone := by
    cases i with
    | zero =>
      cases hi
      rw [hkept] at hnone
      cases hnone
    | succ i =>
      obtain ⟨inst, e₁, e₂, hmem, hbuilt⟩ := h.built i key' identity' item' hi hnone
      rw [Nat.add_assoc, Nat.add_comm 1 i] at hbuilt
      exact ⟨inst, e₁, e₂, List.mem_cons_of_mem _ hmem, hbuilt⟩
  mem_moved x := by
    rw [h.mem_moved_cons]
    split
    · rename_i hstays
      refine ⟨.inr, fun h => h.resolve_left ?_⟩
      rintro ⟨-, -, hmoves, -⟩
      exact hmoves hstays
    · rename_i hmoves
      rw [List.mem_append]
      refine or_congr_left ⟨fun hx => ⟨kept, hkept, hmoves, hx⟩, ?_⟩
      rintro ⟨kept', hkept', -, hx⟩
      rwa [Option.some.inj (hkept.symm.trans hkept')]

/-- The instance of an item is built. -/
theorem Arrangement.cons_built (hnone : old.get? key = none) {e e₁ : Engine}
    (hbuilt : (buildInstance re spec c item index (some identity)).Gives e (.ok inst) e₁)
    (h : Arrangement re spec c old (index + 1) wanted arranged moved) :
    Arrangement re spec c old index ((key, identity, item) :: wanted) ((key, inst) :: arranged)
      moved where
  keys := by rw [List.map_cons, h.keys, List.map_cons]
  kept key' inst' kept' hmem hkept' := by
    rcases List.mem_cons.1 hmem with heq | hmem
    · cases heq
      rw [hnone] at hkept'
      cases hkept'
    · exact h.kept key' inst' kept' hmem hkept'
  built i key' identity' item' hi hnone' := by
    cases i with
    | zero =>
      cases hi
      exact ⟨inst, e, e₁, List.mem_cons_self, hbuilt⟩
    | succ i =>
      obtain ⟨inst', e₂, e₃, hmem, hbuilt'⟩ := h.built i key' identity' item' hi hnone'
      rw [Nat.add_assoc, Nat.add_comm 1 i] at hbuilt'
      exact ⟨inst', e₂, e₃, List.mem_cons_of_mem _ hmem, hbuilt'⟩
  mem_moved x := by
    rw [h.mem_moved_cons]
    refine ⟨.inr, fun h => h.resolve_left ?_⟩
    rintro ⟨kept', hkept', -⟩
    rw [hnone] at hkept'
    cases hkept'

/-- Arranging keeps and builds. -/
theorem arrangeInstances_gives (recursive : Bool) (wanted : List (Key × Value × Value)) :
    ∀ {index : Nat} {p : List (Key × Instance) × List NodeId} {e e' : Engine},
      (arrangeInstances re spec c recursive old index wanted).Gives e (.ok p) e' →
        Arrangement re spec c old index wanted p.1 p.2 := by
  induction wanted with
  | nil =>
    intro index p e e' h
    obtain ⟨rfl, -⟩ := of_gives_pure_ok h
    exact .nil
  | cons w wanted ih =>
    intro index p e e' h
    obtain ⟨key, identity, item⟩ := w
    unfold arrangeInstances at h
    split at h
    · rename_i kept hkept
      obtain ⟨_, e₁, -, h⟩ := of_gives_bind_ok h
      obtain ⟨q, e₂, hrest, h⟩ := of_gives_bind_ok h
      obtain ⟨rfl, -⟩ := of_gives_pure_ok h
      exact .cons_kept hkept (ih hrest)
    · rename_i hnone
      obtain ⟨inst, e₁, hbuilt, h⟩ := of_gives_bind_ok h
      obtain ⟨q, e₂, hrest, h⟩ := of_gives_bind_ok h
      obtain ⟨rfl, -⟩ := of_gives_pure_ok h
      exact .cons_built hnone hbuilt (ih hrest)

end Render

/-! ## Nodes of instances -/

/-- What was built is new. -/
theorem Forest.Extends.fresh {V V' : Forest} {r p x : NodeId} {new : List NodeId} {n : RenderNode}
    (h : V.Extends V' p new) (ht : V.Tree r) (ht' : V'.Tree r) (hn : V p = some n)
    (hx : x ∈ new) : V x = none := by
  have hn' := h.old p n hn
  rw [if_pos rfl] at hn'
  refine Option.eq_none_iff_forall_ne_some.2 fun m hm => ?_
  -- a node of before keeps its parent, and would be a child twice
  obtain ⟨m', hm', hp⟩ := ht'.child p _ x hn' (List.mem_append_right _ hx)
  rw [h.old x m hm, Option.some.injEq] at hm'
  have hchild : x ∈ n.children := (ht.mem_children_iff hn).2 ⟨m, hm, by rw [← hp, ← hm']⟩
  exact (List.nodup_append.1 (ht'.nodup p _ hn')).2.2 x hchild x hx rfl

/-- The skeleton of a loop is the loop. -/
theorem RenderKind.skeleton_eq_loop {kind : RenderKind} {data : LoopData} :
    kind.skeleton = .loop data ↔ kind = .loop data := by
  cases kind <;> simp [skeleton]

/-- The shape of a node shows what a loop is. -/
theorem RenderNode.kind_shape_loop {n : RenderNode} {data : LoopData} :
    n.shape.kind = .loop data ↔ n.kind = .loop data := RenderKind.skeleton_eq_loop

namespace View

variable {v v' v₁ : View} {r y x : NodeId} {busy : List NodeId} {c : Cursor} {spec : LoopSpec}
  {old : OrderedMap Key Instance} {wanted : Key → Bool} {keys : List Key} {key key' : Key}
  {inst inst' kept : Instance} {arranged : List (Key × Instance)} {children : List NodeId}

/-- A live node belongs to one instance only. -/
theorem Lists.key_unique (h : v.Lists old children) (hnodup : children.Nodup)
    (hx : v.live x = true) (hmem : (key, inst) ∈ old.entries) (hin : x ∈ inst.nodes)
    (hmem' : (key', inst') ∈ old.entries) (hin' : x ∈ inst'.nodes) : key = key' := by
  have hflat : children = old.entries.flatMap fun entry => entry.2.nodes.filter v.live := by
    rw [h.children_eq, OrderedMap.nodes, OrderedMap.values, List.flatMap_map, List.filter_flatMap]
  rw [hflat, List.nodup_flatMap] at hnodup
  by_contra hne
  have : Std.Symm (Function.onFun List.Disjoint fun entry : Key × Instance =>
    entry.2.nodes.filter v.live) := ⟨fun _ _ h => h.symm⟩
  have hdisjoint := hnodup.2.forall hmem hmem' fun heq => hne (congrArg Prod.fst heq)
  exact hdisjoint (List.mem_filter.2 ⟨hin, hx⟩) (List.mem_filter.2 ⟨hin', hx⟩)

/-- The nodes of the instances of a loop in order are there, or gone for good. -/
theorem Kept.known {n : RenderNode} {data : LoopData} (h : v.Kept n) (hkind : n.kind = .loop data)
    (hkeyed : data.isKeyed = true) (hstate : data.state = .keyed old) (hx : x ∈ old.nodes) :
    v.live x = true ∨ v.spent x := by
  obtain ⟨instances, hinstances, hlists⟩ := h data hkind hkeyed
  obtain rfl := LoopState.keyed.inj (hstate.symm.trans hinstances)
  split at hlists
  · rw [hlists] at hx
    exact (List.not_mem_nil hx).elim
  · exact hlists.known x hx

/-- What was built while the instances were arranged was not there before, and is there afterwards.
-/
def Places (c : Cursor) (old : OrderedMap Key Instance) (keys : List Key) (v : View)
    (arranged : List (Key × Instance)) (v' : View) : Prop :=
  ∀ root busy n, v.shape.Tree root → v.shape c.parent = some n → v.Sound (c.parent :: busy) →
    (∀ b ∈ busy, v.shape.Above b c.parent) → n.isContext = false → n.context = c.ctx →
      (∀ key ∈ keys, ∀ kept, old.get? key = some kept →
        ∀ x ∈ kept.nodes, x ∈ n.children ∨ v.spent x) →
        ∀ key inst, (key, inst) ∈ arranged → old.get? key = none → ∀ x ∈ inst.nodes,
          v.live x = false ∧ ¬v.spent x ∧ v'.live x = true

/-- A node that is new later is new. -/
theorem Later.fresh (h : v.Later v₁) (hx : v₁.live x = false ∧ ¬v₁.spent x) :
    v.live x = false ∧ ¬v.spent x := by
  refine ⟨Bool.eq_false_iff.2 fun hlive => ?_, fun hspent => hx.2 (h.spent x hspent)⟩
  exact (h.known x hlive).elim (ne_true_of_eq_false hx.1) hx.2

/-- Keeping an instance builds nothing. -/
theorem Places.cons_kept (hkept : old.get? key = some kept)
    (hkeep : ∀ root busy n, v.shape.Tree root → v.shape c.parent = some n → v.Sound busy →
      (∀ b ∈ busy, b = c.parent ∨ v.shape.Above b c.parent) →
      (∀ x ∈ kept.nodes, x ∈ n.children ∨ v.spent x) →
        Changed root c.parent v v₁ ∧ v₁.Sound busy ∧ v₁.shape c.parent = some n)
    (hrest : v₁.Places c old keys arranged v') :
    v.Places c old (key :: keys) ((key, kept) :: arranged) v' := by
  intro root busy n ht hn hsound hbusy hno hctx hold key' inst hmem hnone x hx
  obtain ⟨hchanged, hsound₁, hn₁⟩ := hkeep root (c.parent :: busy) n ht hn hsound
    (fun b hb => (List.mem_cons.1 hb).imp_right (hbusy b)) (hold key List.mem_cons_self kept hkept)
  have hlive : v.live c.parent = true := live_iff.2 ⟨n, hn⟩
  rcases List.mem_cons.1 hmem with heq | hmem
  · cases heq
    rw [hkept] at hnone
    cases hnone
  obtain ⟨hdead, hfresh, hthere⟩ := hrest root busy n hchanged.tree hn₁ hsound₁
    (fun b hb => hchanged.above ht hlive (hbusy b hb)) hno hctx
    (fun key' hkey' kept' hkept' x hx => (hold key' (List.mem_cons_of_mem key hkey') kept' hkept'
      x hx).imp_right (hchanged.later.spent x)) key' inst hmem hnone x hx
  obtain ⟨hdead, hfresh⟩ := hchanged.later.fresh ⟨hdead, hfresh⟩
  exact ⟨hdead, hfresh, hthere⟩

/-- The nodes that are built for an item are new. -/
theorem Places.cons_built {first : Instance}
    (hbuild : ∀ root busy n, v.shape.Tree root → v.shape c.parent = some n →
      v.Sound (c.parent :: busy) → v.Admits c → Grown root c.parent v v₁ ∧
        v₁.Sound (c.parent :: busy) ∧
          v₁.shape c.parent = some { n with children := n.children ++ first.nodes })
    (hrest : v₁.Arranges c old keys arranged v' ∧ v₁.Places c old keys arranged v') :
    v.Places c old (key :: keys) ((key, first) :: arranged) v' := by
  intro root busy n ht hn hsound hbusy hno hctx hold key' inst hmem hnone' x hx
  have hc : v.Admits c := (admits_of_node ht hn hno c.frame c.ns).congr rfl hctx.symm
  obtain ⟨hg, hsound₁, hn₁⟩ := hbuild root busy n ht hn hsound hc
  have hlive : v.live c.parent = true := live_iff.2 ⟨n, hn⟩
  have hchanged := hg.changed
  have habove (b : NodeId) (hb : b ∈ busy) := hchanged.above ht hlive (hbusy b hb)
  have hold₁ (key' : Key) (hkey' : key' ∈ keys) (kept' : Instance)
      (hkept' : old.get? key' = some kept') (x : NodeId) (hx : x ∈ kept'.nodes) :
      x ∈ n.children ++ first.nodes ∨ v₁.spent x :=
    (hold key' (List.mem_cons_of_mem key hkey') kept' hkept' x hx).imp
      (List.mem_append_left _) (hchanged.later.spent x)
  rcases List.mem_cons.1 hmem with heq | hmem
  · cases heq
    obtain ⟨new, hnew⟩ := hg.extends_children
    have hfirst : new = first.nodes := by
      have hn₁' := hnew.old c.parent n hn
      rw [if_pos rfl, hn₁, Option.some.injEq] at hn₁'
      exact (List.append_cancel_left (congrArg RenderNode.children hn₁')).symm
    have hx₁ : v₁.live x = true := live_of_child hg.tree hn₁ (List.mem_append_right _ hx)
    refine ⟨?_, fun hspent => ?_, ?_⟩
    · rw [live, hnew.fresh ht hg.tree hn (hfirst ▸ hx)]
      rfl
    · rw [live_of_spent (hg.later.spent x hspent)] at hx₁
      cases hx₁
    · -- what was built stays among the children of the loop
      obtain ⟨hchanged', -, -, built, hn', -⟩ := hrest.1 root busy _ hg.tree hn₁ hsound₁ habove
        hno hctx hold₁
      exact live_of_child hchanged'.tree hn'
        (List.mem_append_left _ (List.mem_append_right _ hx))
  · obtain ⟨hdead, hfresh, hthere⟩ := hrest.2 root busy _ hg.tree hn₁ hsound₁ habove hno hctx hold₁
      key' inst hmem hnone' x hx
    obtain ⟨hdead, hfresh⟩ := hchanged.later.fresh ⟨hdead, hfresh⟩
    exact ⟨hdead, hfresh, hthere⟩

end View

/-! ## Taking instances out -/

namespace Engine

variable {e e' : Engine} {root id x y : NodeId} {n : RenderNode} {data : LoopData}
  {old : OrderedMap Key Instance} {c : Cursor} {busy : List NodeId} {spec : LoopSpec}

/-- Changing what a node is leaves the nodes that are there. -/
theorem contains_modifyKind (e : Engine) (id y : NodeId) (f : RenderKind → RenderKind) :
    (e.modifyKind id f).contains y = e.contains y := Arena.contains_modify id y _

/-- Changing what a node is leaves it to nodes whether they are reportable. -/
theorem isReportable_modifyKind (e : Engine) (id y : NodeId) (f : RenderKind → RenderKind) :
    (e.modifyKind id f).isReportable y = e.isReportable y := by
  unfold modifyKind
  exact isReportable_modifyNode (f := fun n => { n with kind := f n.kind }) (fun _ => rfl) y

/-- Changing what a node is leaves the children of nodes. -/
theorem childrenOf_modifyKind (e : Engine) (id y : NodeId) (f : RenderKind → RenderKind) :
    (e.modifyKind id f).childrenOf y = e.childrenOf y := by
  unfold childrenOf modifyKind
  rw [node?_modifyNode]
  split
  · rename_i hy
    rw [hy]
    cases e.node? id with
    | none => rfl
    | some n => rfl
  · rfl

/-- Changing what a node is leaves the parents of nodes. -/
theorem parent_modifyKind (e : Engine) (id a y : NodeId) (f : RenderKind → RenderKind) :
    (e.modifyKind id f).shape.Parent a y ↔ e.shape.Parent a y := by
  have hparent (e : Engine) : e.shape.Parent a y ↔ (e.node? y).bind (·.parent) = some a := by
    rw [Option.bind_eq_some_iff]
    constructor
    · rintro ⟨n, hn, ha⟩
      obtain ⟨m, hm, rfl⟩ := node?_of_shape hn
      exact ⟨m, hm, ha⟩
    · rintro ⟨m, hm, ha⟩
      exact ⟨m.shape, shape_of_node? hm, ha⟩
  rw [hparent, hparent, modifyKind, node?_modifyNode]
  split
  · rename_i hy
    rw [hy, Option.bind_map]
    rfl
  · rfl

/-- Changing what a node is leaves the ancestors of nodes. -/
theorem above_modifyKind (e : Engine) (id a y : NodeId) (f : RenderKind → RenderKind) :
    (e.modifyKind id f).shape.Above a y ↔ e.shape.Above a y :=
  ⟨Forest.Above.mono fun p x => (parent_modifyKind e id p x f).1,
    Forest.Above.mono fun p x => (parent_modifyKind e id p x f).2⟩

/-- Taking the instances out of a loop removes its empty case, and no node of an instance. -/
theorem takeInstances_taken (hvalid : e.nodes.Valid) (ht : e.shape.Tree root)
    (hn : e.node? id = some n) (hkind : n.kind = .loop data) (hkeyed : data.isKeyed = true)
    (hstate : data.state = .keyed old) (hkept : e.view.Kept n.shape) :
    (e.takeInstances id).1 = old ∧ if data.showingEmpty then
      old = .empty ∧ ∀ y, e.view.shape.Above id y → (e.takeInstances id).2.view.live y = false
    else (∀ y, (e.takeInstances id).2.view.live y = e.view.live y) ∧
      ∀ a y, (e.takeInstances id).2.view.shape.Above a y ↔ e.view.shape.Above a y := by
  rw [Render.takeInstances_eq hn hkind hstate]
  refine ⟨rfl, ?_⟩
  dsimp only
  split
  · rename_i hempty
    obtain ⟨instances, hinstances, hnone⟩ :=
      hkept data (RenderNode.kind_shape_loop.2 hkind) hkeyed
    rw [hstate, LoopState.keyed.injEq] at hinstances
    rw [if_pos hempty] at hnone
    refine ⟨hinstances.trans hnone, fun y hy => ?_⟩
    rw [live_view, contains_modifyKind, ← live_view]
    have hpruned : (e.clearChildren id).view.shape y = none := by
      rw [show (e.clearChildren id).view.shape = _ from shape_clearChildren hvalid ht]
      exact Forest.prune_eq_none hy
    rw [View.live, hpruned]
    rfl
  · refine ⟨fun y => ?_, fun a y => above_modifyKind e id a y _⟩
    rw [live_view, live_view, contains_modifyKind]

/-- Removing nodes of instances takes away their subtrees. -/
theorem live_foldl_removeNode (ids : List NodeId) : ∀ {e : Engine}, e.nodes.Valid →
    e.view.Working root c busy spec old → (∀ x ∈ ids, x ∈ old.nodes) → ∀ y,
      (ids.foldl removeNode e).view.live y = true ↔
        e.view.live y = true ∧ ∀ x ∈ ids, ¬(y = x ∨ e.shape.Above x y) := by
  induction ids with
  | nil => exact fun _ _ _ y => ⟨fun h => ⟨h, fun _ hx => (List.not_mem_nil hx).elim⟩, And.left⟩
  | cons x ids ih =>
    intro e hvalid hw hids y
    obtain ⟨-, hw₁, -⟩ := Render.removeNode_working hvalid hw (hids x List.mem_cons_self)
    rw [List.foldl_cons, ih (valid_stable.closed.removeNode x hvalid) hw₁
      fun x' hx' => hids x' (List.mem_cons_of_mem x hx'), List.forall_mem_cons]
    cases hx : e.contains x with
    | false =>
      -- nothing is under a node that is gone
      rw [removeNode_of_dead hx]
      refine ⟨fun h => ⟨h.1, ?_, h.2⟩, fun h => ⟨h.1, h.2.2⟩⟩
      rintro (rfl | ha)
      · rw [live_view, hx] at h
        cases h.1
      · rw [contains_iff_shape.2 (hw.tree.above_live ha)] at hx
        cases hx
    | true =>
      have hshape := shape_removeNode hvalid hw.tree hx
      have hlive : (e.removeNode x).view.live y = true ↔
          e.view.live y = true ∧ ¬(y = x ∨ e.shape.Above x y) := by
        rw [live_view, live_view, contains_iff_shape, contains_iff_shape, hshape]
        constructor
        · rintro ⟨n', hn'⟩
          obtain ⟨hout, n, hn, -⟩ := Forest.of_cut hn'
          exact ⟨⟨n, hn⟩, hout⟩
        · rintro ⟨⟨n, hn⟩, hout⟩
          exact ⟨_, Forest.to_cut hout hn⟩
      rw [hlive, and_assoc]
      refine and_congr_right fun _ => and_congr_right fun hout => ?_
      rw [hshape]
      refine forall₂_congr fun x' _ => not_congr (or_congr_right ?_)
      exact Forest.above_cut Forest.closed_self hout

/-- Removing instances takes away the subtrees of their nodes. -/
theorem live_dropInstances (hvalid : e.nodes.Valid) (hw : e.view.Working root c busy spec old)
    (wanted : Key → Bool) (y : NodeId) : (e.dropInstances old wanted).view.live y = true ↔
      e.view.live y = true ∧ ∀ key inst, (key, inst) ∈ old.entries → wanted key = false →
        ∀ x ∈ inst.nodes, ¬(y = x ∨ e.shape.Above x y) := by
  have hmem (x : NodeId) : x ∈ (old.entries.filter fun entry => !wanted entry.1).flatMap
      (·.2.nodes) ↔ ∃ key inst, (key, inst) ∈ old.entries ∧ wanted key = false ∧ x ∈ inst.nodes := by
    simp only [List.mem_flatMap, List.mem_filter, Bool.not_eq_true', Prod.exists, and_assoc]
  rw [Render.dropInstances_eq, live_foldl_removeNode _ hvalid hw fun x hx => ?_]
  · simp only [hmem]
    refine and_congr_right fun _ => ⟨fun h key inst hentry hkey x hx => ?_, ?_⟩
    · exact h x ⟨key, inst, hentry, hkey, hx⟩
    · rintro h x ⟨key, inst, hentry, hkey, hx⟩
      exact h key inst hentry hkey x hx
  · obtain ⟨key, inst, hentry, -, hx⟩ := (hmem x).1 hx
    exact OrderedMap.mem_nodes hentry hx

/-- Removing instances leaves the nodes of the others. -/
theorem dropInstances_survives (hvalid : e.nodes.Valid)
    (hw : e.view.Working root c busy spec old) (wanted : Key → Bool) {key : Key} {kept : Instance}
    (hentry : (key, kept) ∈ old.entries) (hkey : wanted key = true) (hx : x ∈ kept.nodes) :
    (e.dropInstances old wanted).view.live x = e.view.live x := by
  rw [Bool.eq_iff_iff, live_dropInstances hvalid hw]
  refine ⟨And.left, fun hlive => ⟨hlive, fun key' inst hentry' hkey' x' hx' hunder => ?_⟩⟩
  obtain ⟨n, hn, -, hlists⟩ := hw.node
  have hchild {z : NodeId} (hz : z ∈ old.nodes) (hzlive : e.view.live z = true) :
      e.shape.Parent c.parent z := by
    refine hw.tree.child c.parent n z hn ?_
    rw [hlists.children_eq]
    exact List.mem_filter.2 ⟨hz, hzlive⟩
  have hlive' : e.view.live x' = true := by
    rcases hunder with rfl | ha
    · exact hlive
    · rw [live_view]
      exact contains_iff_shape.2 (hw.tree.above_live ha)
  -- siblings have no node in common, and no node belongs to two instances
  obtain rfl := hw.tree.siblings_disjoint (hchild (OrderedMap.mem_nodes hentry hx) hlive)
    (hchild (OrderedMap.mem_nodes hentry' hx') hlive') (.inl rfl) hunder
  obtain rfl := hlists.key_unique (hw.tree.nodup c.parent n hn) hlive hentry hx hentry' hx'
  rw [hkey] at hkey'
  cases hkey'

end Engine

namespace Render

open Act

variable {re : Reentry}

/-- Arranging builds new nodes for the instances that were not there. -/
theorem arrangeInstances_places (hre : re.Grounded) (spec : LoopSpec) (c : Cursor)
    (recursive : Bool) (old : OrderedMap Key Instance) (wanted : List (Key × Value × Value)) :
    ∀ index, (arrangeInstances re spec c recursive old index wanted).Ensures fun v p v' =>
      v.Places c old (wanted.map (·.1)) p.1 v' := by
  induction wanted with
  | nil =>
    exact fun index => ensures_pure fun v _ _ _ _ _ _ _ _ _ _ _ _ hmem =>
      (List.not_mem_nil hmem).elim
  | cons w wanted ih =>
    intro index
    obtain ⟨key, identity, item⟩ := w
    -- what is built first has to stay while the rest is arranged
    have hrest := Ensures.and (arrangeInstances_does hre spec c recursive old wanted (index + 1))
      (ih (index + 1))
    unfold arrangeInstances
    split
    · rename_i kept hkept
      refine (ensures_bind (keepInstance_does hre c.parent spec c kept item index identity recursive)
        fun _ => ensures_bind (ih (index + 1)) fun p => ensures_pure (S := fun v q v' => v' = v ∧
          q.1 = (key, kept) :: p.1) fun v => ⟨rfl, rfl⟩).imp ?_
      rintro v q v' ⟨_, v₁, hkeep, p, v₂, hplaces, rfl, hq⟩
      rw [hq]
      exact .cons_kept hkept hkeep hplaces
    · refine (ensures_bind (buildInstance_ensures hre spec c item index identity)
        fun built => ensures_bind hrest fun p => ensures_pure (S := fun v q v' => v' = v ∧
          q.1 = (key, built) :: p.1) fun v => ⟨rfl, rfl⟩).imp ?_
      rintro v q v' ⟨first, v₁, hbuild, p, v₂, hrest, rfl, hq⟩
      rw [hq]
      exact .cons_built hbuild hrest

end Render
end ReactiveView
