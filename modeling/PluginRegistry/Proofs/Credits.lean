import PluginRegistry.Proofs.Identities

/-!
# What is credited to whom

An object names its contributor, and a contribution lists objects. In a `Balanced` store the two
agree: every live point and every live extension is listed in the contribution of the contributor
it names (`Store.Credited`), and the children in content are listed once, in the order of their ids
(`Store.Ordered`). Then what a contributor owns are the live objects that name it
(`Store.Balanced.mem_associated_iff`), each once (`Store.Balanced.nodup_associated`): a walk meets
no element twice, because an element has one parent.
-/

namespace PluginRegistry

/-- The ids of one kind in a contribution. Elements are not listed there. -/
def Contribution.ids (k : Contribution) : ObjectKind → List ObjectId
  | .point => k.points
  | .extension => k.extensions
  | .element => []

namespace Store

variable {s s' : Store} {c : ContributorId} {kind : ObjectKind} {id : ObjectId}

/-- The contribution of `c` lists the id among those of this kind. -/
def Credits (s : Store) (c : ContributorId) (kind : ObjectKind) (id : ObjectId) : Prop :=
  ∃ known, s.contribution? c = some known ∧ id ∈ known.ids kind

/-- Every live point and every live extension is credited to its contributor. -/
def Credited (s : Store) : Prop :=
  ∀ id o, s.object? id = some o → o.kind ≠ .element → s.Credits o.contributor o.kind id

/-- The children in content stand in the order of their ids. -/
def Ordered (s : Store) : Prop :=
  ∀ id o, s.object? id = some o → o.kind ≠ .point → o.children.Pairwise (·.index < ·.index)

/-- Objects and contributions agree, wherever the extensions are linked. -/
structure Balanced (s : Store) : Prop where
  typed : s.Typed
  rooted : s.Rooted
  listed : s.Listed
  credited : s.Credited
  ordered : s.Ordered

theorem balanced_empty : empty.Balanced where
  typed := typed_empty
  rooted := rooted_empty
  listed := listed_empty
  credited id o ho := by simp at ho
  ordered id o ho := by simp at ho

/-! ## Content -/

theorem Ordered.nodup_children (h : s.Ordered) {o : RegistryObject} (ho : s.object? id = some o)
    (hk : o.kind ≠ .point) : o.children.Nodup :=
  (h id o ho hk).imp fun hlt heq => absurd hlt (by rw [heq]; omega)

namespace Rooted

variable {o : RegistryObject} {a b : ObjectId}

theorem parent_eq (h : s.Rooted) {p x : ObjectId} (hp : s.IsChild p x) :
    ∃ e, s.element? x = some e ∧ e.parent = p := by
  obtain ⟨a, ha, hmem⟩ := mem_elementChildren_iff.1 hp
  obtain ⟨-, -, -, e, he, hparent, -⟩ := h.child (element?_eq_some_iff.1 ha) nofun x hmem
  exact ⟨e, he, hparent⟩

theorem index_le (h : s.Rooted) (hpath : Relation.ReflTransGen s.IsChild a b) :
    a.index ≤ b.index := by
  induction hpath with
  | refl => exact Nat.le_refl _
  | tail _ hstep ih => exact ih.trans (h.descends _ _ hstep).le

/-- No child of an object is below another one. -/
theorem siblings_apart (h : s.Rooted) (ho : s.object? id = some o) (hk : o.kind ≠ .point)
    (ha : a ∈ o.children) (hb : b ∈ o.children) (hpath : Relation.ReflTransGen s.IsChild a b) :
    a = b := by
  rcases hpath.cases_tail with rfl | ⟨above, habove, hstep⟩
  · rfl
  · -- the parent of `b` is the object, but it is not below its own child
    obtain ⟨-, -, hlt, -⟩ := h.child ho hk a ha
    obtain ⟨-, -, -, e, he, hparent, -⟩ := h.child ho hk b hb
    obtain ⟨e', he', hparent'⟩ := h.parent_eq hstep
    rw [he] at he'
    cases he'
    have hle := h.index_le habove
    rw [hparent'.symm.trans hparent] at hle
    omega

theorem siblings_eq (h : s.Rooted) (ho : s.object? id = some o) (hk : o.kind ≠ .point)
    (ha : a ∈ o.children) (hb : b ∈ o.children) {x : ObjectId}
    (hax : Relation.ReflTransGen s.IsChild a x) (hbx : Relation.ReflTransGen s.IsChild b x) :
    a = b := by
  have hunique : Relator.RightUnique (Function.swap s.IsChild) := by
    intro x p q hp hq
    obtain ⟨e, he, rfl⟩ := h.parent_eq hp
    obtain ⟨e', he', rfl⟩ := h.parent_eq hq
    rw [he] at he'
    rw [Option.some.inj he']
  rcases Relation.ReflTransGen.total_of_right_unique hunique
    (Relation.reflTransGen_swap.2 hax) (Relation.reflTransGen_swap.2 hbx) with hba | hab
  · exact (h.siblings_apart ho hk hb ha (Relation.reflTransGen_swap.1 hba)).symm
  · exact h.siblings_apart ho hk ha hb (Relation.reflTransGen_swap.1 hab)

theorem nodup_content (h : s.Rooted) (hordered : s.Ordered) (depth : Nat)
    (ho : s.object? id = some o) (hk : o.kind ≠ .point) :
    (o.children.flatMap (s.preorder depth)).Nodup := by
  induction depth generalizing id o with
  | zero => simpa [preorder] using hordered.nodup_children ho hk
  | succ depth ih =>
    refine List.nodup_flatMap.2 ⟨fun child hchild => ?_, ?_⟩
    · obtain ⟨-, -, -, e, he, -⟩ := h.child ho hk child hchild
      have hbelow := ih (element?_eq_some_iff.1 he) (by simp [RegistryObject.kind])
      rw [preorder, elementChildren, he, List.nodup_cons]
      refine ⟨fun hmem => ?_, hbelow⟩
      -- whatever is further down has a later id
      obtain ⟨grandchild, hgrandchild, hmem⟩ := List.mem_flatMap.1 hmem
      have hlt := h.descends child grandchild (mem_elementChildren_iff.2 ⟨e, he, hgrandchild⟩)
      have hle := h.index_le (below_of_mem_preorder hmem)
      omega
    · refine (hordered.nodup_children ho hk).pairwise_of_forall_ne fun a ha b hb hne x hxa hxb => ?_
      exact hne (h.siblings_eq ho hk ha hb (below_of_mem_preorder hxa) (below_of_mem_preorder hxb))

theorem inContent_parent (h : s.Rooted) {x : ObjectId} {e : Element} (hx : s.InContent id x)
    (he : s.element? x = some e) : s.InContent id e.parent := by
  obtain ⟨a, ha, rfl | hbelow⟩ := hx
  · rw [extension?_eq_some_iff, element?_eq_some_iff.1 he] at ha
    cases ha
  · exact ⟨a, ha, h.parent_below (extension?_eq_some_iff.1 ha) nofun hbelow he⟩

theorem inContent_unique (h : s.Rooted) {x y z : ObjectId} (hx : s.InContent x z)
    (hy : s.InContent y z) : x = y := by
  induction hn : z.index using Nat.strongRecOn generalizing z with
  | _ n ih =>
    cases he : s.element? z with
    | some e =>
      obtain ⟨o, ho, hkind, hmem⟩ := h.parent he
      have hk : o.kind ≠ .point := hkind ▸ ParentKind.objectKind_ne_point _
      obtain ⟨-, -, hlt, -⟩ := h.child ho hk z hmem
      exact ih _ (hn ▸ hlt) (h.inContent_parent hx he) (h.inContent_parent hy he) rfl
    | none =>
      have hself : ∀ {x}, s.InContent x z → z = x := by
        rintro x ⟨a, ha, heq | hbelow⟩
        · exact heq
        · obtain ⟨e, he', -⟩ := h.below (extension?_eq_some_iff.1 ha) nofun hbelow
          rw [he] at he'
          cases he'
      exact (hself hx).symm.trans (hself hy)

end Rooted

/-! ## What a contributor owns -/

/-- The elements in the content of an object, each before its children. -/
def content (s : Store) (id : ObjectId) : List ObjectId :=
  match s.object? id with
  | some o => s.subtree o.children
  | none => []

theorem objectsFrom_of_known {known : Contribution} (hc : s.contribution? c = some known)
    (kind : ObjectKind) : s.objectsFrom c kind = match kind with
      | .point => known.points
      | .extension => known.extensions
      | .element => known.extensions.flatMap s.content := by
  unfold objectsFrom extensionTrees
  rw [hc]
  cases kind with
  | point => rfl
  | extension => rfl
  | element => exact List.flatMap_map ..

theorem associated_of_known {known : Contribution} (hc : s.contribution? c = some known) :
    s.associated c = known.points ++ known.extensions.flatMap fun x => x :: s.content x := by
  unfold associated extensionTrees
  rw [hc]
  exact congrArg (known.points ++ ·) (List.flatMap_map ..)

theorem exists_of_mem_associated (h : id ∈ s.associated c) :
    ∃ known, s.contribution? c = some known := by
  cases hc : s.contribution? c with
  | some known => exact ⟨known, rfl⟩
  | none =>
    rw [associated, hc] at h
    cases h

theorem mem_content_iff (h : s.Rooted) {x z : ObjectId} {e : Extension}
    (he : s.extension? x = some e) : z ∈ x :: s.content x ↔ s.InContent x z := by
  rw [List.mem_cons, content, extension?_eq_some_iff.1 he, InContent, he]
  simp only [Option.some.injEq, exists_eq_left', ← mem_subtree_iff h.descends]
  rfl

theorem filter_kind {k : ObjectKind} {ids : List ObjectId}
    (hids : ∀ id ∈ ids, ∃ o, s.object? id = some o ∧ o.kind = k) (kind : ObjectKind) :
    ids.filter (fun id => (s.object? id).any (·.kind = kind)) = if k = kind then ids else [] := by
  split
  · rename_i heq
    refine List.filter_eq_self.2 fun id hid => ?_
    obtain ⟨o, ho, hk⟩ := hids id hid
    simp [ho, hk, heq]
  · rename_i hne
    refine List.filter_eq_nil_iff.2 fun id hid => ?_
    obtain ⟨o, ho, hk⟩ := hids id hid
    simp [ho, hk, hne]

namespace Balanced

variable {known : Contribution}

theorem live_of_mem (h : s.Balanced) (hc : s.contribution? c = some known) (kind : ObjectKind)
    (hid : id ∈ known.ids kind) :
    ∃ o, s.object? id = some o ∧ o.kind = kind ∧ o.contributor = c := by
  have hknown := List.mem_of_find?_eq_some hc
  have hcontributor : known.contributor = c := by simpa using List.find?_some hc
  rw [← hcontributor]
  cases kind with
  | point => exact (h.listed.points known hknown).live id hid
  | extension => exact (h.listed.extensions known hknown).live id hid
  | element => cases hid

theorem extension?_of_mem (h : s.Balanced) (hc : s.contribution? c = some known)
    (hid : id ∈ known.extensions) : ∃ e, s.extension? id = some e :=
  h.listed.extension_of_mem (by rwa [objectsFrom_of_known hc .extension])

theorem live_of_mem_content (h : s.Balanced) (hc : s.contribution? c = some known) {x : ObjectId}
    (hx : x ∈ known.extensions) (hid : id ∈ s.content x) :
    ∃ o, s.object? id = some o ∧ o.kind = .element ∧ o.contributor = c := by
  obtain ⟨o, ho, hkind, hco⟩ := h.live_of_mem hc .extension hx
  have hk : o.kind ≠ .point := by rw [hkind]; nofun
  rw [content, ho] at hid
  obtain ⟨e, he, hec⟩ := h.rooted.below ho hk ((mem_subtree_iff h.rooted.descends).1 hid)
  exact ⟨_, element?_eq_some_iff.1 he, rfl, hec.trans hco⟩

/-- What names a contributor is owned by it: an element because what it hangs below is. -/
theorem mem_associated (h : s.Balanced) {o : RegistryObject} (ho : s.object? id = some o) :
    id ∈ s.associated o.contributor := by
  induction hn : id.index using Nat.strongRecOn generalizing id o with
  | _ n ih =>
    cases o with
    | point p =>
      obtain ⟨known, hc, hid⟩ := h.credited id _ ho nofun
      exact (Store.mem_associated_iff hc).2 (.inl hid)
    | extension e =>
      obtain ⟨known, hc, hid⟩ := h.credited id _ ho nofun
      exact (Store.mem_associated_iff hc).2 (.inr (.inl hid))
    | element e =>
      have he := element?_eq_some_iff.2 ho
      obtain ⟨above, habove, hkind, hmem⟩ := h.rooted.parent he
      have hk : above.kind ≠ .point := hkind ▸ ParentKind.objectKind_ne_point _
      obtain ⟨-, -, hlt, e', he', -, -, hco⟩ := h.rooted.child habove hk id hmem
      rw [he] at he'
      cases he'
      have hparent := ih _ (hn ▸ hlt) habove rfl
      rw [← hco] at hparent
      obtain ⟨known, hc⟩ := exists_of_mem_associated hparent
      exact (h.rooted.mem_associated_iff h.typed hc he).2 hparent

theorem mem_associated_iff (h : s.Balanced) :
    id ∈ s.associated c ↔ ∃ o, s.object? id = some o ∧ o.contributor = c := by
  constructor
  · intro hid
    obtain ⟨known, hc⟩ := exists_of_mem_associated hid
    rw [associated_of_known hc, List.mem_append, List.mem_flatMap] at hid
    rcases hid with hid | ⟨x, hx, hid⟩
    · obtain ⟨o, ho, -, hco⟩ := h.live_of_mem hc .point hid
      exact ⟨o, ho, hco⟩
    · rcases List.mem_cons.1 hid with rfl | hid
      · obtain ⟨o, ho, -, hco⟩ := h.live_of_mem hc .extension hx
        exact ⟨o, ho, hco⟩
      · obtain ⟨o, ho, -, hco⟩ := h.live_of_mem_content hc hx hid
        exact ⟨o, ho, hco⟩
  · rintro ⟨o, ho, rfl⟩
    exact h.mem_associated ho

theorem nodup_tree (h : s.Balanced) (hc : s.contribution? c = some known) {x : ObjectId}
    (hx : x ∈ known.extensions) : (x :: s.content x).Nodup := by
  obtain ⟨e, he⟩ := h.extension?_of_mem hc hx
  rw [extension?_eq_some_iff] at he
  rw [List.nodup_cons]
  constructor
  · intro hmem
    obtain ⟨o, ho, hkind, -⟩ := h.live_of_mem_content hc hx hmem
    rw [he] at ho
    cases ho
    cases hkind
  · rw [content, he]
    dsimp only
    rw [subtree_eq]
    exact h.rooted.nodup_content h.ordered _ he (by simp [RegistryObject.kind])

theorem nodup_associated (h : s.Balanced) (c : ContributorId) : (s.associated c).Nodup := by
  cases hc : s.contribution? c with
  | none =>
    rw [associated, hc]
    exact .nil
  | some known =>
    have hknown := List.mem_of_find?_eq_some hc
    have htree : ∀ {x z}, x ∈ known.extensions → z ∈ x :: s.content x → s.InContent x z := by
      intro x z hx hz
      obtain ⟨e, he⟩ := h.extension?_of_mem hc hx
      exact (mem_content_iff h.rooted he).1 hz
    rw [associated_of_known hc, List.nodup_append]
    refine ⟨(h.listed.points known hknown).nodup,
      List.nodup_flatMap.2 ⟨fun x hx => h.nodup_tree hc hx, ?_⟩, ?_⟩
    · -- what is in the content of two extensions makes them one
      exact (h.listed.extensions known hknown).nodup.pairwise_of_forall_ne
        fun x hx y hy hne z hzx hzy =>
          hne (h.rooted.inContent_unique (htree hx hzx) (htree hy hzy))
    · -- a point is in no content
      rintro a ha b hb rfl
      obtain ⟨p, hp, hpoint, -⟩ := h.live_of_mem hc .point ha
      obtain ⟨x, hx, hmem⟩ := List.mem_flatMap.1 hb
      obtain ⟨o, ho, hk⟩ := h.rooted.inContent (htree hx hmem)
      rw [hp] at ho
      cases ho
      exact hk hpoint

theorem filter_tree (h : s.Balanced) (hc : s.contribution? c = some known) {x : ObjectId}
    (hx : x ∈ known.extensions) (kind : ObjectKind) :
    (x :: s.content x).filter (fun id => (s.object? id).any (·.kind = kind)) =
      (if ObjectKind.extension = kind then [x] else []) ++
        if ObjectKind.element = kind then s.content x else [] := by
  have hroot : ∀ id ∈ [x], ∃ o, s.object? id = some o ∧ o.kind = .extension := by
    intro id hid
    obtain ⟨o, ho, hkind, -⟩ := h.live_of_mem hc .extension hx
    exact ⟨o, List.mem_singleton.1 hid ▸ ho, hkind⟩
  have hbelow : ∀ id ∈ s.content x, ∃ o, s.object? id = some o ∧ o.kind = .element := by
    intro id hid
    obtain ⟨o, ho, hkind, -⟩ := h.live_of_mem_content hc hx hid
    exact ⟨o, ho, hkind⟩
  rw [← List.singleton_append, List.filter_append, filter_kind hroot, filter_kind hbelow]

theorem objectsFrom_eq (h : s.Balanced) (c : ContributorId) (kind : ObjectKind) :
    s.objectsFrom c kind =
      (s.associated c).filter fun id => (s.object? id).any (·.kind = kind) := by
  cases hc : s.contribution? c with
  | none =>
    rw [objectsFrom, associated, hc]
    rfl
  | some known =>
    have hpoints : ∀ id ∈ known.points, ∃ o, s.object? id = some o ∧ o.kind = .point := by
      intro id hid
      obtain ⟨o, ho, hkind, -⟩ := h.live_of_mem hc .point hid
      exact ⟨o, ho, hkind⟩
    rw [associated_of_known hc, List.filter_append, filter_kind hpoints, List.filter_flatMap,
      List.flatMap_congr fun x hx => h.filter_tree hc hx kind, objectsFrom_of_known hc kind]
    cases kind <;> simp

end Balanced

end Store

end PluginRegistry
