import PluginRegistry.Proofs.Declared
import PluginRegistry.Proofs.Subtrees
import PluginRegistry.Proofs.Writes

/-!
# The mark for changes

A store is marked `dirty` when it changes. No write looks at the mark: what it answers, what it
notes and what it leaves are the same up to the mark, and the log has no part in it either
(`Transaction.Agree`). A write that changes anything leaves the mark set.
-/

namespace PluginRegistry

namespace Store

/-- The store with its mark set or taken away. -/
def mark (s : Store) (dirty : Bool) : Store := { s with dirty }

variable (s : Store) (b : Bool)

@[simp] theorem mark_mark (c : Bool) : (s.mark b).mark c = s.mark c := rfl

@[simp] theorem mark_dirty : s.mark s.dirty = s := rfl

@[simp] theorem dirty_mark : (s.mark b).dirty = b := rfl

@[simp] theorem slots_mark : (s.mark b).slots = s.slots := rfl

@[simp] theorem nextId_mark : (s.mark b).nextId = s.nextId := rfl

@[simp] theorem object?_mark (id : ObjectId) : (s.mark b).object? id = s.object? id := rfl

@[simp] theorem point?_mark (id : ObjectId) : (s.mark b).point? id = s.point? id := rfl

@[simp] theorem extension?_mark (id : ObjectId) : (s.mark b).extension? id = s.extension? id := rfl

@[simp] theorem pointNamed?_mark (u : String) : (s.mark b).pointNamed? u = s.pointNamed? u := rfl

@[simp] theorem setPointChildren_mark (id : ObjectId) (children : List ObjectId) :
    (s.mark b).setPointChildren id children = s.setPointChildren id children := rfl

@[simp] theorem takeOrphans_mark (u : String) : (s.mark b).takeOrphans u = s.takeOrphans u := rfl

theorem addOrphans_mark (u : String) {ids : List ObjectId} (h : ids ≠ []) :
    (s.mark b).addOrphans u ids = s.addOrphans u ids := by
  unfold addOrphans
  rw [if_neg h, if_neg h]
  rfl

theorem removeOrphan_mark (u : String) (id : ObjectId) :
    ∃ c, ((s.mark b).removeOrphan u id).2 = (s.removeOrphan u id).2.mark c := by
  unfold removeOrphan
  have hbucket : (s.mark b).orphansOf? u = s.orphansOf? u := rfl
  rw [hbucket]
  split
  · exact ⟨b, rfl⟩
  · exact ⟨_, rfl⟩

@[simp] theorem contribution?_mark (c : ContributorId) :
    (s.mark b).contribution? c = s.contribution? c := rfl

@[simp] theorem hasContribution_mark (c : ContributorId) :
    (s.mark b).hasContribution c = s.hasContribution c := rfl

theorem preorder_mark (depth : Nat) (id : ObjectId) :
    (s.mark b).preorder depth id = s.preorder depth id := by
  induction depth generalizing id with
  | zero => rfl
  | succ depth ih =>
    have hchildren : (s.mark b).elementChildren id = s.elementChildren id := rfl
    rw [preorder, preorder, hchildren, funext ih]

@[simp] theorem subtree_mark (roots : List ObjectId) :
    (s.mark b).subtree roots = s.subtree roots := by
  rw [subtree_eq, subtree_eq, funext (s.preorder_mark b _), nextId_mark]

@[simp] theorem objectsFrom_mark (c : ContributorId) (kind : ObjectKind) :
    (s.mark b).objectsFrom c kind = s.objectsFrom c kind := by
  simp only [objectsFrom, contribution?_mark, extensionTrees, object?_mark, subtree_mark]

@[simp] theorem associated_mark (c : ContributorId) :
    (s.mark b).associated c = s.associated c := by
  simp only [associated, contribution?_mark, extensionTrees, object?_mark, subtree_mark]

end Store

namespace Transaction

def masked (t : Transaction) (b : Bool) (log : Array LogRecord) : Transaction :=
  { t with objects := t.objects.mark b, log }

/-- The same answer, and the same transaction up to mark and log. -/
def Agree {α : Type} (x x' : α × Transaction) : Prop :=
  x'.1 = x.1 ∧ ∃ b log, x'.2 = x.2.masked b log

variable (t : Transaction) (b : Bool) (log : Array LogRecord) (id : ObjectId)

theorem agree_masked {α : Type} (a : α) : Agree (a, t) (a, t.masked b log) := ⟨rfl, b, log, rfl⟩

theorem masked_capture : (t.masked b log).capture id = (t.capture id).masked b log := by
  unfold capture masked
  simp only [Store.object?_mark, Store.subtree_mark, funext (Store.object?_mark t.objects b)]
  cases t.objects.object? id <;> rfl

theorem masked_record (p : ExtensionPoint) (ids : List ObjectId) (kind : DeltaKind) :
    (t.masked b log).record p ids kind =
      ((t.record p ids kind).1, (t.record p ids kind).2.masked b log) := by
  have run : ∀ (ids : List ObjectId) (t : Transaction),
      ids.foldl (fun t extension =>
        let t := t.capture extension
        { t with tracker := t.tracker.record p.ns { extension, point := p.id, kind } })
          (t.masked b log) =
      (ids.foldl (fun t extension =>
        let t := t.capture extension
        { t with tracker := t.tracker.record p.ns { extension, point := p.id, kind } })
          t).masked b log := by
    intro ids
    induction ids with
    | nil => exact fun _ => rfl
    | cons id ids ih =>
      intro t
      rw [List.foldl_cons, List.foldl_cons, ← ih, masked_capture]
      rfl
  unfold record
  have htracker : (t.masked b log).tracker = t.tracker := rfl
  rw [htracker]
  split
  · rfl
  · exact Prod.ext rfl (run ids { t with tracker := t.tracker.capture (.point p) })

theorem agree_record (objects : Store) (r : LogRecord) (p : ExtensionPoint) (ids : List ObjectId)
    (kind : DeltaKind) : Agree (({ t with objects }.report r).record p ids kind)
      (({ t.masked b log with objects }.report r).record p ids kind) := by
  have hmasked : { t.masked b log with objects }.report r =
      ({ t with objects }.report r).masked objects.dirty (log.push r) := rfl
  rw [hmasked, masked_record]
  exact agree_masked _ _ _ _

theorem objects_masked : (t.masked b log).objects = t.objects.mark b := rfl

theorem agree_linkExtension : Agree (t.linkExtension id) ((t.masked b log).linkExtension id) := by
  unfold linkExtension
  simp only [objects_masked, Store.extension?_mark, Store.pointNamed?_mark,
    Store.setPointChildren_mark]
  split
  · exact agree_masked _ _ _ _
  · rename_i e _
    split
    · refine ⟨rfl, (t.objects.addOrphans e.target [id]).dirty,
        log.push (.extensionParked id e.target), ?_⟩
      simp only [objects_report, objects_masked,
        Store.addOrphans_mark _ _ _ (List.cons_ne_nil id [])]
      rfl
    · split
      · exact agree_masked _ _ _ _
      · split
        · exact agree_masked _ _ _ _
        · exact agree_record _ _ _ _ _ _ _ _

theorem agree_linkPoint : Agree (t.linkPoint id) ((t.masked b log).linkPoint id) := by
  unfold linkPoint
  simp only [objects_masked, Store.point?_mark, Store.takeOrphans_mark]
  split
  · exact agree_masked _ _ _ _
  · split
    · exact agree_masked _ _ _ _
    · rename_i bucket objects _
      split
      · exact ⟨rfl, objects.dirty, log, rfl⟩
      · exact agree_record _ _ _ _ _ _ _ _

theorem agree_unlinkExtension :
    Agree (t.unlinkExtension id) ((t.masked b log).unlinkExtension id) := by
  unfold unlinkExtension
  simp only [objects_masked, Store.extension?_mark, Store.pointNamed?_mark,
    Store.setPointChildren_mark]
  split
  · exact agree_masked _ _ _ _
  · rename_i e _
    split
    · obtain ⟨c, hc⟩ := t.objects.removeOrphan_mark b e.target id
      exact ⟨rfl, c, log, by rw [hc]; rfl⟩
    · split
      · exact agree_masked _ _ _ _
      · exact agree_record _ _ _ _ _ _ _ _

theorem agree_unlinkPoint : Agree (t.unlinkPoint id) ((t.masked b log).unlinkPoint id) := by
  unfold unlinkPoint
  simp only [objects_masked, Store.point?_mark]
  split
  · exact agree_masked _ _ _ _
  · rename_i p _
    by_cases hc : p.children = []
    · simp only [hc, List.isEmpty_nil, if_true]
      exact agree_masked _ _ _ _
    · have he : p.children.isEmpty = false := by simpa using hc
      simp only [he, Bool.false_eq_true, if_false, Store.addOrphans_mark _ _ _ hc]
      split
      · exact ⟨rfl, _, log, rfl⟩
      · exact agree_record _ _ _ _ _ _ _ _

theorem agree_forEach {f : Transaction → ObjectId → Option String × Transaction}
    (hf : ∀ t b log id, Agree (f t id) (f (t.masked b log) id)) (ids : List ObjectId) :
    Agree (t.forEach f ids) ((t.masked b log).forEach f ids) := by
  induction ids generalizing t b log with
  | nil => exact agree_masked _ _ _ _
  | cons id ids ih =>
    obtain ⟨hns, b', log', hstep⟩ := hf t b log id
    obtain ⟨hothers, hrest⟩ := ih (f t id).2 b' log'
    simp only [forEach, hstep, hns]
    exact ⟨congrArg ((f t id).1.toList ++ ·) hothers, hrest⟩

theorem agree_linkAll (points extensions : List ObjectId) :
    Agree (t.linkAll points extensions) ((t.masked b log).linkAll points extensions) := by
  obtain ⟨hbefore, b', log', hpoints⟩ := agree_forEach t b log agree_linkPoint points
  obtain ⟨hafter, hextensions⟩ := agree_forEach (t.forEach linkPoint points).2 b' log'
    agree_linkExtension extensions
  simp only [linkAll, hpoints, hbefore]
  exact ⟨by rw [hafter], hextensions⟩

theorem agree_unlinkAll (c : ContributorId) :
    Agree (t.unlinkAll c) ((t.masked b log).unlinkAll c) := by
  simp only [unlinkAll, objects_masked, Store.objectsFrom_mark]
  obtain ⟨hbefore, b', log', hextensions⟩ := agree_forEach t b log agree_unlinkExtension
    (t.objects.objectsFrom c .extension)
  simp only [hextensions, hbefore, objects_masked, Store.objectsFrom_mark]
  obtain ⟨hafter, hpoints⟩ := agree_forEach
    (t.forEach unlinkExtension (t.objects.objectsFrom c .extension)).2 b' log' agree_unlinkPoint
    ((t.forEach unlinkExtension (t.objects.objectsFrom c .extension)).2.objects.objectsFrom c
      .point)
  exact ⟨by rw [hafter], hpoints⟩

/-! ## Storing and removing -/

end Transaction

namespace Store

mutual

theorem addElement_mark (s : Store) (b : Bool) (context : ElementContext) (e : ElementDecl) :
    (s.mark b).addElement context e = s.addElement context e := by
  cases e with
  | mk name properties value children =>
    have hallocate : (s.mark b).allocate = (s.allocate.1, s.allocate.2.mark b) := rfl
    obtain ⟨c, hc⟩ := addElements_mark s.allocate.2 b
      { context with parent := s.allocate.1, parentKind := .element } children
    simp only [addElement, hallocate, hc]
    rfl

theorem addElements_mark (s : Store) (b : Bool) (context : ElementContext)
    (es : List ElementDecl) : ∃ c, (s.mark b).addElements context es =
      ((s.addElements context es).1, (s.addElements context es).2.mark c) := by
  cases es with
  | nil => exact ⟨b, rfl⟩
  | cons e es =>
    refine ⟨(s.addElements context (e :: es)).2.dirty, ?_⟩
    simp only [addElements, addElement_mark s b context e, mark_dirty]

end

theorem addExtensions_mark (p : PreparedDeclaration) (s : Store) (b : Bool)
    (ds : List ExtensionDecl) : ∃ c, Transaction.addExtensions p (s.mark b) ds =
      ((Transaction.addExtensions p s ds).1, (Transaction.addExtensions p s ds).2.mark c) := by
  cases ds with
  | nil => exact ⟨b, rfl⟩
  | cons d ds =>
    have hfirst : addExtension p (s.mark b) d = addExtension p s d := by
      have hallocate : (s.mark b).allocate = (s.allocate.1, s.allocate.2.mark b) := rfl
      obtain ⟨c, hc⟩ := addElements_mark s.allocate.2 b (contentContext p s.allocate.1) d.content
      simp only [addExtension, hallocate, hc]
      rfl
    refine ⟨(Transaction.addExtensions p s (d :: ds)).2.dirty, ?_⟩
    rw [addExtensions_cons, addExtensions_cons, hfirst]
    rfl

theorem addContribution_mark (s : Store) (b : Bool) (c : Contribution) :
    (s.mark b).addContribution c = s.addContribution c := rfl

theorem remove_mark (s : Store) (b : Bool) (ids : List ObjectId) :
    ∃ c, (s.mark b).remove ids = ((s.remove ids).1, (s.remove ids).2.mark c) := by
  induction ids generalizing s b with
  | nil => exact ⟨b, rfl⟩
  | cons id ids ih =>
    obtain ⟨c, hc⟩ :
        ∃ c, (s.mark b).removeOne id = ((s.removeOne id).1, (s.removeOne id).2.mark c) := by
      unfold removeOne
      rw [object?_mark]
      cases s.object? id with
      | none => exact ⟨b, rfl⟩
      | some o => exact ⟨true, rfl⟩
    obtain ⟨c', hc'⟩ := ih (s.removeOne id).2 c
    exact ⟨c', by simp only [remove, hc, hc']⟩

theorem removeContribution_mark (s : Store) (b : Bool) (c : ContributorId) :
    ∃ b', ((s.mark b).removeContribution c).2 = (s.removeContribution c).2.mark b' := by
  unfold removeContribution
  rw [contribution?_mark]
  cases s.contribution? c with
  | none => exact ⟨b, rfl⟩
  | some known => exact ⟨true, rfl⟩

end Store

namespace Transaction

variable (t : Transaction) (b : Bool) (log : Array LogRecord)

theorem agree_addPoints (p : PreparedDeclaration) (ds : List PointDecl) :
    Agree (t.addPoints p ds) ((t.masked b log).addPoints p ds) := by
  induction ds generalizing t b log with
  | nil => exact agree_masked _ _ _ _
  | cons d ds ih =>
    simp only [addPoints]
    by_cases htaken : (t.objects.pointNamed? (Name.qualify p.ns d.localId)).isSome
    · rw [if_pos htaken,
        if_pos (show ((t.masked b log).objects.pointNamed? _).isSome = true from htaken)]
      exact ih (t.report _) b (log.push _)
    · rw [if_neg htaken,
        if_neg (show ¬((t.masked b log).objects.pointNamed? _).isSome = true from htaken)]
      obtain ⟨hids, hrest⟩ := ih { t with
        objects := t.objects.allocate.2.put (.point (p.point d t.objects.allocate.1)) true }
        true log
      exact ⟨congrArg (t.objects.allocate.1 :: ·) hids, hrest⟩

theorem agree_report {α : Type} {a : α} {t t' : Transaction} (h : ∃ b log, t' = t.masked b log)
    (r : LogRecord) : Agree (a, t.report r) (a, t'.report r) := by
  obtain ⟨b, log, rfl⟩ := h
  exact ⟨rfl, b, log.push r, rfl⟩

theorem agree_ingest (p : PreparedDeclaration) :
    Agree (t.ingest p) ((t.masked b log).ingest p) := by
  obtain ⟨hids, b', log', hpoints⟩ := agree_addPoints t b log p p.declaration.points
  obtain ⟨c, hextensions⟩ := Store.addExtensions_mark p
    (t.addPoints p p.declaration.points).2.objects b' p.declaration.extensions
  simp only [ingest, hids, hpoints, objects_masked, hextensions, Store.addContribution_mark]
  have hlinked := fun t points extensions => agree_linkAll t t.objects.dirty log' points extensions
  obtain ⟨haffected, hrest⟩ := hlinked _ _ _
  exact haffected ▸ agree_report hrest _

theorem agree_ingestAll (ps : List PreparedDeclaration) :
    ∃ b' log', (t.masked b log).ingestAll ps = (t.ingestAll ps).masked b' log' := by
  induction ps generalizing t b log with
  | nil => exact ⟨b, log, rfl⟩
  | cons p ps ih =>
    obtain ⟨-, b', log', hp⟩ := agree_ingest t b log p
    obtain ⟨b'', log'', hps⟩ := ih (t.ingest p).2 b' log'
    exact ⟨b'', log'', by rw [ingestAll, List.foldl_cons, hp]; exact hps⟩

theorem agree_removeContributor (c : ContributorId) :
    Agree (t.removeContributor c) ((t.masked b log).removeContributor c) := by
  unfold removeContributor
  rw [objects_masked, Store.hasContribution_mark]
  split
  · obtain ⟨haffected, b', log', hunlinked⟩ := agree_unlinkAll t b log c
    simp only [haffected, hunlinked, objects_masked, Store.associated_mark]
    obtain ⟨d, hremoved⟩ := (t.unlinkAll c).2.objects.remove_mark b'
      ((t.unlinkAll c).2.objects.associated c)
    obtain ⟨d', hcontribution⟩ := ((t.unlinkAll c).2.objects.remove
      ((t.unlinkAll c).2.objects.associated c)).2.removeContribution_mark d c
    simp only [hremoved, hcontribution]
    exact agree_report ⟨d', log', rfl⟩ _
  · exact agree_masked _ _ _ _

/-! ## Changes set the mark -/

variable {t}

theorem dirty_linkExtension (h : t.objects.dirty = true) (id : ObjectId) :
    (t.linkExtension id).2.objects.dirty = true := by
  unfold linkExtension
  split
  · exact h
  · split
    · simp [Store.addOrphans]
    · split
      · exact h
      · split
        · exact h
        · rename_i hset
          obtain ⟨p, -, he⟩ := Option.map_eq_some_iff.1 hset
          cases he
          rw [objects_record]
          rfl

theorem dirty_linkPoint (h : t.objects.dirty = true) (id : ObjectId) :
    (t.linkPoint id).2.objects.dirty = true := by
  unfold linkPoint
  split
  · exact h
  · split
    · exact h
    · rename_i htake
      obtain ⟨bucket, -, he⟩ := Option.map_eq_some_iff.1 htake
      cases he
      dsimp only
      split
      · rfl
      · rename_i hset
        obtain ⟨p, -, he⟩ := Option.map_eq_some_iff.1 hset
        cases he
        rw [objects_record]
        rfl

/-- Taking a declaration in files its contribution, even an empty one. -/
theorem dirty_ingest (t : Transaction) (p : PreparedDeclaration) :
    (t.ingest p).2.objects.dirty = true := by
  obtain ⟨record, heq⟩ := ingest_eq t p
  rw [heq]
  have hpoints := forEach_induction (f := linkPoint) (P := fun _ t => t.objects.dirty = true)
    (fun id _ _ h => dirty_linkPoint h id) (t.stored p).1 (t.stored p).2.2 rfl
  exact forEach_induction (f := linkExtension) (P := fun _ t => t.objects.dirty = true)
    (fun id _ _ h => dirty_linkExtension h id) (t.stored p).2.1 _ hpoints

theorem dirty_ingestAll (t : Transaction) {ps : List PreparedDeclaration} (h : ps ≠ []) :
    (t.ingestAll ps).objects.dirty = true := by
  induction ps generalizing t with
  | nil => exact absurd rfl h
  | cons p ps ih =>
    cases ps with
    | nil => exact dirty_ingest t p
    | cons q qs => exact ih (t.ingest p).2 (List.cons_ne_nil q qs)

theorem dirty_removeContributor (h : t.objects.Settled) (c : ContributorId) :
    (t.removeContributor c).2 = t ∨ (t.removeContributor c).2.objects.dirty = true := by
  cases hc : t.objects.hasContribution c with
  | false =>
    rw [removeContributor_of_unknown hc]
    exact .inl rfl
  | true =>
    obtain ⟨known, hknown⟩ := Option.isSome_iff_exists.1 hc
    obtain ⟨hdrops, -⟩ := linked_unlinkAll h hknown
    have hknown' : ((t.unlinkAll c).2.objects.remove
        ((t.unlinkAll c).2.objects.associated c)).2.contribution? c = some known := by
      rw [Store.contribution?, (Store.frame_remove _ _).2.1,
        (relinked_of_drops hdrops).contributions_eq, ← Store.contribution?, hknown]
    obtain ⟨record, heq⟩ := removeContributor_of_known hc
    rw [heq, objects_report, purged, Store.removeContribution, hknown']
    exact .inr rfl

end Transaction

theorem Write.dirty_perform {r : Registry} (h : r.objects.Settled) (w : Write) :
    (w.perform r).objects = r.objects ∨ (w.perform r).objects.dirty = true := by
  have hleaves := w.leaves_perform r
  cases ht : w.transaction? r with
  | none =>
    rw [ht] at hleaves
    exact .inl hleaves.1
  | some t =>
    rw [ht] at hleaves
    rw [hleaves.1]
    obtain ⟨t₀, hobjects, -, ⟨prepared, rfl⟩ | ⟨c, rfl⟩⟩ := transaction?_cases ht
    · cases prepared with
      | nil => exact .inl hobjects
      | cons p ps => exact .inr (t₀.dirty_ingestAll (List.cons_ne_nil p ps))
    · rcases Transaction.dirty_removeContributor (hobjects ▸ h) c with heq | hdirty
      · exact .inl (by rw [heq, hobjects])
      · exact .inr hdirty

end PluginRegistry
