import PluginRegistry.Proofs.Reloads

/-!
# Walks on one stack

A walk through element trees is a loop over a stack (`Tour`): the id on top is visited, and if it is
a live element its children are put on the stack, the first of them on top. The loop has no limit
and does not look at what it has visited. It ends exactly if no path of child links from its roots
comes back to where it was (`ends_iff_acyclic`), as in every store that writes lead to
(`Reachable.acyclic`). Then the recursive preorder of the roots stands behind what was visited
before, and the limit of `Store.walk` is not met (`collects_of_acyclic`).
-/

namespace PluginRegistry.Store

variable {s : Store} {roots : List ObjectId} {out result : Array ObjectId}

/-! ## The loop -/

/-- A moment of a walk. -/
structure Tour where
  /-- What is still to be visited, the next id last. -/
  stack : Array ObjectId
  /-- What is visited, behind what was there before the walk. -/
  visited : Array ObjectId

namespace Tour

variable {t t' : Tour}

/-- The moment before the first turn, with the first root on top of the stack. -/
def start (roots : List ObjectId) (out : Array ObjectId) : Tour := ⟨roots.reverse.toArray, out⟩

/-- One turn of the loop, unless the stack is empty. The children of an element go on the stack from
the last to the first, so that the first is next. -/
def turn? (s : Store) (t : Tour) : Option Tour :=
  t.stack.back?.map fun id =>
    ⟨t.stack.pop ++ (s.elementChildren id).reverse.toArray, t.visited.push id⟩

def Turns (s : Store) : Tour → Tour → Prop := Relation.ReflTransGen fun t t' => t.turn? s = some t'

theorem turn?_push (s : Store) (stack : Array ObjectId) (id : ObjectId) (out : Array ObjectId) :
    turn? s ⟨stack.push id, out⟩ =
      some ⟨stack ++ (s.elementChildren id).reverse.toArray, out.push id⟩ := by
  simp [turn?]

theorem turn?_empty (s : Store) (out : Array ObjectId) : turn? s ⟨#[], out⟩ = none := rfl

theorem exists_of_turn? (h : t.turn? s = some t') : ∃ stack id,
    t = ⟨stack.push id, t.visited⟩ ∧
      t' = ⟨stack ++ (s.elementChildren id).reverse.toArray, t.visited.push id⟩ := by
  obtain ⟨stack, visited⟩ := t
  obtain ⟨id, hid, -⟩ := Option.map_eq_some_iff.1 h
  obtain ⟨below, rfl⟩ := Array.back?_eq_some_iff.1 hid
  rw [turn?_push] at h
  exact ⟨below, id, rfl, (Option.some.inj h).symm⟩

theorem Turns.size_le (h : Turns s t t') : t.visited.size ≤ t'.visited.size := by
  induction h with
  | refl => exact Nat.le_refl _
  | tail _ hturn ih =>
    obtain ⟨stack, id, -, rfl⟩ := exists_of_turn? hturn
    simp only [Array.size_push]
    omega

theorem Turns.final_unique {a b : Array ObjectId} (ha : Turns s t ⟨#[], a⟩)
    (hb : Turns s t ⟨#[], b⟩) : a = b := by
  have hunique : Relator.RightUnique fun t t' : Tour => t.turn? s = some t' :=
    fun _ _ _ h h' => Option.some.inj (h.symm.trans h')
  have hstays : ∀ {a b}, Turns s ⟨#[], a⟩ ⟨#[], b⟩ → a = b := by
    intro a b h
    rcases h.cases_head with heq | ⟨t, hturn, -⟩
    · exact congrArg Tour.visited heq
    · rw [turn?_empty] at hturn
      cases hturn
  rcases Relation.ReflTransGen.total_of_right_unique hunique ha hb with h | h
  · exact hstays h
  · exact (hstays h).symm

end Tour

/-- The loop from these roots ends, and `result` is what is visited then. -/
def Collects (s : Store) (roots : List ObjectId) (out result : Array ObjectId) : Prop :=
  Tour.Turns s (.start roots out) ⟨#[], result⟩

/-! ## Child links that do not come back -/

/-- No path of child links from one of the roots comes back to where it was. -/
def Acyclic (s : Store) (roots : List ObjectId) : Prop :=
  ∀ id, s.Below roots id → ¬Relation.TransGen s.IsChild id id

theorem Acyclic.mono {others : List ObjectId} (h : s.Acyclic roots)
    (hbelow : ∀ id, s.Below others id → s.Below roots id) : s.Acyclic others :=
  fun id hid => h id (hbelow id hid)

theorem Acyclic.rest {root : ObjectId} {rest : List ObjectId} (h : s.Acyclic (root :: rest)) :
    s.Acyclic rest :=
  h.mono fun _ ⟨other, hmem, hpath⟩ => ⟨other, List.mem_cons_of_mem _ hmem, hpath⟩

theorem Acyclic.children {root : ObjectId} {rest : List ObjectId} (h : s.Acyclic (root :: rest)) :
    s.Acyclic (s.elementChildren root) :=
  h.mono fun _ ⟨_, hchild, hpath⟩ => ⟨root, List.mem_cons_self, .head hchild hpath⟩

theorem Acyclic.root (h : s.Acyclic roots) {id : ObjectId} (hid : id ∈ roots) : s.Acyclic [id] :=
  h.mono fun _ ⟨_, hmem, hpath⟩ => ⟨id, hid, List.mem_singleton.1 hmem ▸ hpath⟩

theorem acyclic_of_lt {P : ObjectId → Prop} (hroots : ∀ id ∈ roots, P id)
    (hchild : ∀ id child, P id → s.IsChild id child → P child ∧ id.index < child.index) :
    s.Acyclic roots := by
  intro id hid hback
  have hP : P id := hid.induction hroots fun id e hP he child hmem =>
    (hchild id child hP (mem_elementChildren_iff.2 ⟨e, he, hmem⟩)).1
  have hlater : ∀ {x}, Relation.TransGen s.IsChild id x → P x ∧ id.index < x.index := by
    intro x hpath
    induction hpath with
    | single hstep => exact hchild _ _ hP hstep
    | tail _ hstep ih =>
      obtain ⟨hPx, hlt⟩ := hchild _ _ ih.1 hstep
      exact ⟨hPx, ih.2.trans hlt⟩
  exact Nat.lt_irrefl _ (hlater hback).2

theorem Descends.acyclic (h : s.Descends) (roots : List ObjectId) : s.Acyclic roots :=
  acyclic_of_lt (P := fun _ => True) (fun _ _ => trivial) fun id child _ hchild =>
    ⟨trivial, h id child hchild⟩

theorem Reachable.acyclic (h : s.Reachable) (hn : s.nextId ≤ UInt32.size) (roots : List ObjectId) :
    s.Acyclic roots :=
  (h.whole hn).rooted.descends.acyclic roots

/-! ## The limit is not met -/

/-- The ids in `above` are distinct and lead down to `id`. -/
structure Trail (s : Store) (above : List ObjectId) (id : ObjectId) : Prop where
  nodup : above.Nodup
  leads : ∀ x ∈ above, Relation.TransGen s.IsChild x id

theorem trail_nil (s : Store) (id : ObjectId) : s.Trail [] id where
  nodup := .nil
  leads := nofun

namespace Trail

variable {above : List ObjectId} {id : ObjectId}

theorem child (h : s.Trail above id) (hacyclic : s.Acyclic [id]) {child : ObjectId}
    (hchild : s.IsChild id child) : s.Trail (id :: above) child where
  nodup := List.nodup_cons.2
    ⟨fun hmem => hacyclic id (below_of_mem List.mem_cons_self) (h.leads id hmem), h.nodup⟩
  leads x hx := by
    rcases List.mem_cons.1 hx with rfl | hx
    · exact .single hchild
    · exact (h.leads x hx).tail hchild

theorem length_le (h : s.Trail above id) : above.length ≤ s.nextId := by
  refine length_le_of_nodup h.nodup fun x hx => ?_
  obtain ⟨child, hchild, -⟩ := Relation.TransGen.head'_iff.1 (h.leads x hx)
  exact hchild.index_lt

/-- Nothing is cut off below an id if the trail to it and the levels still allowed make up all
slots. -/
theorem preorder_succ {depth : Nat} (h : s.Trail above id) (hacyclic : s.Acyclic [id])
    (hdepth : s.nextId ≤ above.length + depth) :
    s.preorder (depth + 1) id = s.preorder depth id := by
  induction depth generalizing above id with
  | zero =>
    -- a child here would have a trail of more ids than there are slots
    have hnone : s.elementChildren id = [] := by
      refine List.eq_nil_iff_forall_not_mem.2 fun child hchild => ?_
      have hle := (h.child hacyclic hchild).length_le
      rw [List.length_cons] at hle
      omega
    simp only [preorder, hnone, List.flatMap_nil]
  | succ depth ih =>
    rw [preorder, preorder]
    refine congrArg (id :: ·) (List.flatMap_congr fun child hchild => ?_)
    refine ih (h.child hacyclic hchild) (hacyclic.children.root hchild) ?_
    rw [List.length_cons]
    omega

end Trail

/-- Under the limit of a whole walk a preorder follows its recursion, with the same limit again at
the children. -/
theorem preorder_of_acyclic {id : ObjectId} (h : s.Acyclic [id]) :
    s.preorder s.nextId id = id :: (s.elementChildren id).flatMap (s.preorder s.nextId) := by
  rw [← (trail_nil s id).preorder_succ h (Nat.le_add_left _ _), preorder]

/-! ## The preorder -/

theorem flatMap_preorder_cons {root : ObjectId} {rest : List ObjectId}
    (h : s.Acyclic (root :: rest)) :
    (root :: rest).flatMap (s.preorder s.nextId) =
      root :: ((s.elementChildren root).flatMap (s.preorder s.nextId) ++
        rest.flatMap (s.preorder s.nextId)) := by
  rw [List.flatMap_cons, preorder_of_acyclic (h.root List.mem_cons_self), List.cons_append]

/-- The recursive preorder: the first root, then the preorder of the children of the element there,
then the preorder of the other roots. -/
def preorderOf (s : Store) : (roots : List ObjectId) → s.Acyclic roots → List ObjectId
  | [], _ => []
  | root :: rest, h =>
    root :: (s.preorderOf (s.elementChildren root) h.children ++ s.preorderOf rest h.rest)
termination_by roots => (roots.flatMap (s.preorder s.nextId)).length
decreasing_by
  all_goals
    rw [flatMap_preorder_cons h, List.length_cons, List.length_append]
    omega

theorem preorderOf_nil (h : s.Acyclic []) : s.preorderOf [] h = [] := by
  rw [preorderOf]

theorem preorderOf_cons {root : ObjectId} {rest : List ObjectId} (h : s.Acyclic (root :: rest)) :
    s.preorderOf (root :: rest) h =
      root :: (s.preorderOf (s.elementChildren root) h.children ++ s.preorderOf rest h.rest) := by
  rw [preorderOf]

theorem flatMap_preorder (h : s.Acyclic roots) :
    roots.flatMap (s.preorder s.nextId) = s.preorderOf roots h := by
  induction roots, h using preorderOf.induct s with
  | case1 h _ => rw [preorderOf_nil, List.flatMap_nil]
  | case2 root rest h _ ihchildren ihrest =>
    rw [preorderOf_cons, flatMap_preorder_cons h, ihchildren, ihrest]

/-! ## What the loop visits -/

theorem turns_preorderOf (h : s.Acyclic roots) (stack out : Array ObjectId) :
    Tour.Turns s ⟨stack ++ roots.reverse.toArray, out⟩
      ⟨stack, out ++ (s.preorderOf roots h).toArray⟩ := by
  induction roots, h using preorderOf.induct s generalizing stack out with
  | case1 h _ =>
    rw [preorderOf_nil]
    simp only [List.reverse_nil, Array.append_empty]
    exact .refl
  | case2 root rest h _ ihchildren ihrest =>
    have hstack : stack ++ (root :: rest).reverse.toArray =
        (stack ++ rest.reverse.toArray).push root := by simp
    have hvisited : out ++ (s.preorderOf (root :: rest) h).toArray =
        out.push root ++ (s.preorderOf (s.elementChildren root) h.children).toArray ++
          (s.preorderOf rest h.rest).toArray := by
      rw [preorderOf_cons]
      simp
    -- the children lie above the other roots, so all that is below them comes first
    rw [hstack, hvisited]
    refine .head (Tour.turn?_push s _ root out) ?_
    exact (ihchildren _ _).trans (ihrest _ _)

theorem collects_preorderOf (h : s.Acyclic roots) (out : Array ObjectId) :
    s.Collects roots out (out ++ (s.preorderOf roots h).toArray) := by
  have hturns := turns_preorderOf h #[] out
  rwa [Array.empty_append] at hturns

/-! ## Loops that do not end -/

/-- An element on the stack is visited before the loop ends, and then its children are there. -/
theorem Tour.Turns.exists_child {t t' : Tour} (h : Turns s t t') (hend : t'.stack = #[])
    {x child : ObjectId} (hx : x ∈ t.stack) (hchild : s.IsChild x child) :
    ∃ u, child ∈ u.stack ∧ Turns s u t' ∧ t.visited.size < u.visited.size := by
  induction h using Relation.ReflTransGen.head_induction_on with
  | refl =>
    rw [hend] at hx
    cases Array.not_mem_empty _ hx
  | head hturn hrest ih =>
    obtain ⟨stack, id, ht, rfl⟩ := exists_of_turn? hturn
    rw [ht] at hx
    rcases Array.mem_push.1 hx with hx | rfl
    · obtain ⟨u, hu, hturns, hlt⟩ := ih (Array.mem_append_left _ hx)
      rw [Array.size_push] at hlt
      exact ⟨u, hu, hturns, by omega⟩
    · exact ⟨_, Array.mem_append_right _ (by simpa [IsChild] using hchild), hrest, by simp⟩

theorem Tour.Turns.exists_below {t t' : Tour} (h : Turns s t t') (hend : t'.stack = #[])
    {x y : ObjectId} (hx : x ∈ t.stack) (hpath : Relation.TransGen s.IsChild x y) :
    ∃ u, y ∈ u.stack ∧ Turns s u t' ∧ t.visited.size < u.visited.size := by
  induction hpath with
  | single hchild => exact h.exists_child hend hx hchild
  | tail _ hchild ih =>
    obtain ⟨u, hu, hturns, hlt⟩ := ih
    obtain ⟨v, hv, hturns', hlt'⟩ := hturns.exists_child hend hu hchild
    exact ⟨v, hv, hturns', hlt.trans hlt'⟩

/-- With an element on the stack that is below itself the loop does not end: it would have to visit
that element again and again. -/
theorem Tour.Turns.not_below_self {t t' : Tour} (h : Turns s t t') (hend : t'.stack = #[])
    {x : ObjectId} (hx : x ∈ t.stack) : ¬Relation.TransGen s.IsChild x x := by
  intro hback
  induction hn : t'.visited.size - t.visited.size using Nat.strongRecOn generalizing t with
  | _ n ih =>
    obtain ⟨u, hu, hturns, hlt⟩ := h.exists_below hend hx hback
    have hle := hturns.size_le
    exact ih _ (by omega) hturns hu rfl

theorem acyclic_of_collects (h : s.Collects roots out result) : s.Acyclic roots := by
  rintro id ⟨root, hroot, hpath⟩ hback
  have hstart : root ∈ (Tour.start roots out).stack := by simpa [Tour.start] using hroot
  rcases Relation.reflTransGen_iff_eq_or_transGen.1 hpath with rfl | hpath
  · exact h.not_below_self rfl hstart hback
  · obtain ⟨t, ht, hturns, -⟩ := h.exists_below rfl hstart hpath
    exact hturns.not_below_self rfl ht hback

/-- The loop ends exactly if no path from its roots comes back. -/
theorem ends_iff_acyclic : (∃ result, s.Collects roots out result) ↔ s.Acyclic roots :=
  ⟨fun ⟨_, h⟩ => acyclic_of_collects h, fun h => ⟨_, collects_preorderOf h out⟩⟩

/-! ## The walk -/

/-- Where no path of child links from the roots comes back, the loop ends with exactly the recursive
preorder of the roots behind what was there before, and the walk with a limit gives the same. -/
theorem collects_of_acyclic (h : s.Acyclic roots) (out : Array ObjectId) :
    (∀ result, s.Collects roots out result ↔
      result = out ++ (s.preorderOf roots h).toArray) ∧
    s.walk (roots.map (s.slots.size, ·)) out = out ++ (s.preorderOf roots h).toArray := by
  refine ⟨fun result => ⟨fun hresult => ?_, ?_⟩, ?_⟩
  · exact Tour.Turns.final_unique hresult (collects_preorderOf h out)
  · rintro rfl
    exact collects_preorderOf h out
  · refine Array.toList_inj.1 ?_
    rw [toList_walk, List.flatMap_map, Array.toList_append, ← flatMap_preorder h]
    rfl

/-- Two elements of which one is below the other, one below both, one that is its own child, and an
extension that leads back to the first. Nothing has the numbers 5 and 9. -/
def sampleTangled : Store :=
  let element (id : UInt32) (children : List ObjectId) : Option RegistryObject :=
    some (.element ⟨⟨id⟩, "item", [], none, ⟨3⟩, .extension, ⟨1⟩, ⟨1⟩, children⟩)
  { empty with
    slots := #[element 0 [⟨1⟩, ⟨2⟩, ⟨9⟩], element 1 [⟨2⟩, ⟨3⟩, ⟨5⟩], element 2 [],
      some (.extension ⟨⟨3⟩, some "save", "Save", "ui.menu", "ui", ⟨1⟩, [⟨0⟩]⟩), element 4 [⟨4⟩],
      none] }

theorem acyclic_sampleTangled : sampleTangled.Acyclic [⟨1⟩, ⟨0⟩, ⟨3⟩] := by
  have hlater : ∀ n < 6, n ≠ 4 → ∀ child ∈ sampleTangled.elementChildren (.ofIndex n),
      child.index ≠ 4 ∧ n < child.index := by decide
  refine acyclic_of_lt (P := fun id => id.index ≠ 4) (by decide) fun id child hid hchild => ?_
  refine hlater id.index hchild.index_lt hid child ?_
  rwa [ObjectId.ofIndex_index]

theorem collects_sampleTangled : sampleTangled.Acyclic [⟨1⟩, ⟨0⟩, ⟨3⟩] ∧
    let result : Array ObjectId :=
      #[⟨8⟩, ⟨1⟩, ⟨2⟩, ⟨3⟩, ⟨5⟩, ⟨0⟩, ⟨1⟩, ⟨2⟩, ⟨3⟩, ⟨5⟩, ⟨2⟩, ⟨9⟩, ⟨3⟩]
    sampleTangled.Collects [⟨1⟩, ⟨0⟩, ⟨3⟩] #[⟨8⟩] result ∧
    sampleTangled.walk ([⟨1⟩, ⟨0⟩, ⟨3⟩].map (sampleTangled.slots.size, ·)) #[⟨8⟩] = result := by
  have h := acyclic_sampleTangled
  obtain ⟨hcollects, hwalk⟩ := collects_of_acyclic h #[⟨8⟩]
  rw [← flatMap_preorder h] at hwalk
  simp only [← flatMap_preorder h] at hcollects
  exact ⟨h, (hcollects _).2 (by decide), hwalk.trans (by decide)⟩

end PluginRegistry.Store
