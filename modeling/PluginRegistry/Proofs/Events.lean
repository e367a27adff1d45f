import PluginRegistry.Proofs.Captures
import PluginRegistry.Proofs.Handles
import PluginRegistry.Proofs.Turns

/-!
# What the views of an event show

The views of an event ask the snapshot of its write. As long as that is open they show the
extension and its content as they were stored, and the point as the write left it, whatever later
writes did (`ExtensionDelta.Shows`); from the moment it is closed every handle that came from them
(`DeltaView.Gives`) is refused.
-/

namespace PluginRegistry

/-! ## Views -/

/-- A view of a change that some listener has, whatever namespace it asked for. -/
def DeltaMap.Seen (m : DeltaMap) (v : DeltaView) : Prop :=
  ∃ filter, v ∈ (ChangeEvent.mk m filter).views ∨ ∃ ns, v ∈ (ChangeEvent.mk m filter).viewsIn ns

namespace DeltaMap

variable {m : DeltaMap} {v : DeltaView}

theorem mem_views_iff {entry : NamespaceDelta} :
    v ∈ entry.views ↔ entry.snapshot = some v.snapshot ∧ v.delta ∈ entry.deltas := by
  obtain ⟨delta, snapshot⟩ := v
  unfold NamespaceDelta.views
  cases entry.snapshot with
  | none => simp
  | some id => simp [and_comm]

theorem Seen.entry (h : m.Seen v) : ∃ entry ∈ m.entries,
    entry.snapshot = some v.snapshot ∧ v.delta ∈ entry.deltas := by
  have hin : ∀ filter ns, v ∈ (ChangeEvent.mk m filter).viewsIn ns →
      ∃ entry ∈ m.entries, entry.snapshot = some v.snapshot ∧ v.delta ∈ entry.deltas := by
    intro filter ns hv
    unfold ChangeEvent.viewsIn at hv
    split at hv
    · split at hv
      · rename_i entry hentry
        exact ⟨entry, List.mem_of_find?_eq_some hentry, mem_views_iff.1 hv⟩
      · simp at hv
    · simp at hv
  obtain ⟨filter, hv | ⟨ns, hv⟩⟩ := h
  · cases filter with
    | some ns => exact hin (some ns) ns hv
    | none =>
      obtain ⟨entry, hentry, hv⟩ := List.mem_flatMap.1 hv
      exact ⟨entry, hentry, mem_views_iff.1 hv⟩
  · exact hin filter ns hv

theorem exists_seen {ns : String} {d : ExtensionDelta} {id : SnapshotId}
    (h : (m.withSnapshot id).Files ns d) : (m.withSnapshot id).Seen ⟨d, id⟩ := by
  obtain ⟨entry, hentry, -, hd⟩ := h
  refine ⟨none, .inl (List.mem_flatMap.2 ⟨entry, hentry, mem_views_iff.2 ⟨?_, hd⟩⟩)⟩
  obtain ⟨old, -, rfl⟩ := List.mem_map.1 hentry
  rfl

theorem Seen.snapshot_eq {id : SnapshotId} (h : (m.withSnapshot id).Seen v) : v.snapshot = id := by
  obtain ⟨entry, hentry, hid, -⟩ := h.entry
  obtain ⟨old, -, rfl⟩ := List.mem_map.1 hentry
  exact (Option.some.inj hid).symm

theorem Seen.files (h : m.Seen v) : ∃ ns, m.Files ns v.delta := by
  obtain ⟨entry, hentry, -, hd⟩ := h.entry
  exact ⟨entry.ns, entry, hentry, rfl, hd⟩

end DeltaMap

/-- The handles that come from a view: its own two, and what one navigates to from any of them, in
whatever state of a registry. -/
inductive DeltaView.Gives (v : DeltaView) : Handle → Prop
  | extension : Gives v (.extension v.extension)
  | point : Gives v (.point v.point)
  | leads {a b : Handle} (r : Registry) (ha : Gives v a) (h : a.Leads r.resolver b) : Gives v b

namespace DeltaView.Gives

variable {v : DeltaView} {a : Handle}

theorem source_eq (h : v.Gives a) : a.source = .snapshot v.snapshot := by
  induction h with
  | extension => rfl
  | point => rfl
  | leads r _ hleads ih => exact hleads.source_eq.trans ih

theorem refuses {r : Registry} (hc : r.dispatcher.snapshots.isClosed v.snapshot = true)
    (h : v.Gives a) : a.Refuses r.resolver :=
  Handle.refuses_of_closed fun id kind => by
    rw [h.source_eq]
    exact Snapshots.resolver_of_isClosed hc _ id kind

end DeltaView.Gives

/-! ## What they show -/

/-- The change `d` of a write from `s` to `s'` as `look` shows it: the extension with its content
is that of every store that ever led to `s`, and of `s'`; the point is that of `s'`, or, if it is
gone there, that of `s` without its children. -/
structure ExtensionDelta.Shows (d : ExtensionDelta) (look : Resolver) (s s' : Store) : Prop where
  live : ∃ e, s.extension? d.extension = some e ∨ s'.extension? d.extension = some e
  content : ∀ q : Store, q.Reachable → q.Leads s ∨ q = s' → ∀ {x o}, q.InContent d.extension x →
    q.object? x = some o → look x o.kind = .ok o
  point : ∀ {p}, s'.point? d.point = some p → look d.point .point = .ok (.point p)
  removed : s'.point? d.point = none → ∃ p, s.point? d.point = some p ∧
    look d.point .point = .ok (.point { p with children := [] })

/-- A change that is captured is shown. -/
theorem DeltaTracker.Complete.shows {k : DeltaTracker} {s u s' : Store} (h : k.Complete u)
    (hmid : s.Midway u s') (hs' : s'.Rooted) (hn : s.nextId ≤ UInt32.size) {ns : String}
    {d : ExtensionDelta} (hd : k.deltas.Files ns d) {look : Resolver}
    (hlook : ∀ {x o}, k.captured[x]? = some o → look x o.kind = .ok o) : d.Shows look s s' := by
  obtain ⟨⟨hpoint, p, hp⟩, ⟨e, he⟩, hcontent⟩ := h.covers hd
  have hlt := Store.index_lt_of_object? (Store.extension?_eq_some_iff.1 he)
  have hcaptured : ∀ {x}, x ∈ k.captured → k.captured[x]? = u.object? x := by
    intro x hx
    obtain ⟨o, ho⟩ := mem_captured_iff.1 hx
    rw [ho, h.current ho]
  refine ⟨⟨e, hmid.live he⟩, fun q hq hqs x o hx ho => hlook ?_, fun {p'} hp' => ?_,
    fun hnone => ?_⟩
  · rcases hqs with hleads | rfl
    · -- an earlier store has the content as it was in the middle of the write
      have hages := (hleads.ages hq hn).trans hmid.before
      have hrooted := (hq.whole ((hleads.ages hq hn).nextId_le.trans hn)).rooted
      have hsame := hages.object?_of_inContent hrooted hmid.rooted hx he
      have hx' := (hages.inContent_iff hrooted hmid.rooted hx.index_lt he).2 hx
      rw [hcaptured (hcontent x hx'), hsame, ho]
    · obtain ⟨a, ha⟩ := hx.live
      have hx' := (hmid.after.inContent_iff hmid.rooted hs' hlt ha).1 hx
      rw [hcaptured (hcontent x hx'),
        ← hmid.after.object?_of_inContent hmid.rooted hs' hx' ha, ho]
  · have hobject : k.captured[d.point]? = some (.point p) := by
      rw [hcaptured hpoint, Store.point?_eq_some_iff.1 hp]
    rcases hmid.point hp with hkept | ⟨hgone, -⟩
    · rw [hkept] at hp'
      cases hp'
      exact hlook hobject
    · rw [hgone] at hp'
      cases hp'
  · have hobject : k.captured[d.point]? = some (.point p) := by
      rw [hcaptured hpoint, Store.point?_eq_some_iff.1 hp]
    rcases hmid.point hp with hkept | ⟨-, hchildren, children, hold⟩
    · rw [hkept] at hnone
      cases hnone
    · refine ⟨_, hold, ?_⟩
      have heq : ({ ({ p with children } : ExtensionPoint) with children := [] } :
          ExtensionPoint) = p := by
        rw [← hchildren]
      rw [heq]
      exact hlook hobject

/-! ## Events of reachable registries -/

/-- Whoever sees a change of a write that was listened to is shown it as long as the snapshot of
the write is open. From when it is closed every handle that came from the view is refused. -/
theorem Write.views_of_reachable {r : Registry} {w : Write} (h : r.objects.Reachable)
    (hl : r.listeners ≠ []) (hn : (w.perform r).objects.nextId ≤ UInt32.size) :
    (∀ ns d, (w.deltas r).Files ns d → ∃ v, (w.deltas r).Seen v ∧ v.delta = d) ∧
    ∀ v, (w.deltas r).Seen v → ∀ r', (w.perform r).Run r' →
      (r'.dispatcher.snapshots.isClosed v.snapshot = false →
        v.delta.Shows (r'.resolver (.snapshot v.snapshot)) r.objects (w.perform r).objects) ∧
      (r'.dispatcher.snapshots.isClosed v.snapshot = true → ∀ r'', r'.Run r'' →
        ∀ a, v.Gives a → a.Refuses r''.resolver) ∧
      ∀ r'', Registry.Run { r' with dispatcher := r'.dispatcher.close (w.deltas r) } r'' →
        ∀ a, v.Gives a → a.Refuses r''.resolver := by
  have hleaves := w.leaves_perform r
  have hn' := (w.nextId_le_perform r).trans hn
  have hwhole := w.whole_perform (h.whole hn') hn
  cases ht : w.transaction? r with
  | none =>
    have hempty : w.deltas r = .empty := by rw [deltas, ht]
    rw [hempty]
    refine ⟨fun ns d hd => absurd hd DeltaMap.not_files_empty, fun v hv => ?_⟩
    obtain ⟨ns, hd⟩ := hv.files
    exact absurd hd DeltaMap.not_files_empty
  | some t =>
    rw [ht] at hleaves
    have hdeltas : w.deltas r = (t.tracker.finish r.dispatcher.snapshots).1 := by rw [deltas, ht]
    rw [hdeltas, hleaves.1]
    rw [hleaves.1] at hn hwhole
    rcases finish_deltas t.tracker r.dispatcher.snapshots with
      ⟨-, hfinish⟩ | ⟨-, id, hfinish, hcaptured⟩
    · rw [hfinish]
      refine ⟨fun ns d hd => absurd hd DeltaMap.not_files_empty, fun v hv => ?_⟩
      obtain ⟨ns, hd⟩ := hv.files
      exact absurd hd DeltaMap.not_files_empty
    · rw [hfinish]
      refine ⟨fun ns d hd => ⟨_, DeltaMap.exists_seen hd, rfl⟩, fun v hv r' hrun => ?_⟩
      obtain rfl := hv.snapshot_eq
      have hpersists := (Registry.persists_perform ht).trans hrun.persists
      have hlt := (Snapshots.index_lt_of_captured? hcaptured).trans_le hpersists.size_le
      obtain ⟨entry, hentry, hsnapshot, -⟩ := hv.entry
      refine ⟨fun hopen => ?_, fun hclosed r'' hrun a ha => ?_, fun r'' hrun a ha => ?_⟩
      · have hopened := hpersists.captured? hcaptured hopen
        obtain ⟨u, hcomplete, hmid⟩ := captured_transaction? (h.whole hn') hl ht hn
        obtain ⟨ns, hd⟩ := hv.files
        exact hcomplete.shows hmid hwhole.rooted hn' ((DeltaMap.files_withSnapshot _).1 hd)
          fun hx => Snapshots.resolver_of_captured hopened hx _
      · exact ha.refuses (hrun.persists.isClosed hlt hclosed)
      · have hclose := Snapshots.Persists.closeMap r'.dispatcher.snapshots
          (t.tracker.deltas.withSnapshot v.snapshot)
        exact ha.refuses (hrun.persists.isClosed (hlt.trans_le hclose.size_le)
          (Snapshots.isClosed_close hentry hsnapshot r'.dispatcher.snapshots))

/-- The sample with an extension that has content and waits for its point. -/
def Registry.sampleFilled : Registry :=
  let item : ElementDecl := .mk "item" [("label", "Open")] none [.mk "icon" [] (some "open.png") []]
  (Write.add {
    contributor := ⟨2⟩
    extensions := [{ target := "ui.menu", content := [item] }] }).perform sample

open Registry (sampleFilled samplePoint) in
/-- The contributor of the extension is taken out before its link was seen. -/
theorem Write.views_of_sampleFilled : ∃ v, (samplePoint.deltas sampleFilled).Seen v ∧
    ∃ r : Registry, (samplePoint.perform sampleFilled).Run r ∧ r.objects.object? ⟨2⟩ = none ∧
      (∃ o, sampleFilled.objects.object? ⟨2⟩ = some o ∧
        r.resolver (.snapshot v.snapshot) ⟨2⟩ .element = .ok o) ∧
      v.Gives (.element ⟨.snapshot v.snapshot, ⟨2⟩⟩) ∧
      Handle.Refuses (Registry.resolver
        { r with dispatcher := r.dispatcher.close (samplePoint.deltas sampleFilled) })
        (.element ⟨.snapshot v.snapshot, ⟨2⟩⟩) := by
  have h : sampleFilled.objects.Reachable := .write _ _ .empty
  have hl : sampleFilled.listeners ≠ [] := by
    rw [← List.isEmpty_eq_false_iff]
    decide +kernel
  have hn : (samplePoint.perform sampleFilled).objects.nextId ≤ UInt32.size := by decide +kernel
  have hdeltas : samplePoint.deltas sampleFilled =
      ⟨[{ ns := "ui", deltas := [⟨⟨0⟩, ⟨3⟩, .added⟩], snapshot := some ⟨0⟩ }]⟩ := by decide +kernel
  have hseen : (samplePoint.deltas sampleFilled).Seen ⟨⟨⟨0⟩, ⟨3⟩, .added⟩, ⟨0⟩⟩ := by
    rw [hdeltas]
    exact ⟨none, .inl (by decide)⟩
  have hrun : (samplePoint.perform sampleFilled).Run
      ((Write.remove ⟨2⟩).perform (samplePoint.perform sampleFilled)) := .single (.write _ _)
  obtain ⟨-, hviews⟩ := views_of_reachable h hl hn
  obtain ⟨hopen, -, hclosed⟩ := hviews _ hseen _ hrun
  have hextension : (sampleFilled.objects.extension? ⟨0⟩).any (·.children = [⟨1⟩]) := by
    decide +kernel
  have hchild : (⟨2⟩ : ObjectId) ∈ sampleFilled.objects.elementChildren ⟨1⟩ := by decide +kernel
  have helement : (sampleFilled.objects.object? ⟨2⟩).any (·.kind = .element) := by decide +kernel
  obtain ⟨e, he, hchildren⟩ := (Option.any_eq_true _ _).1 hextension
  obtain ⟨o, ho, hkind⟩ := (Option.any_eq_true _ _).1 helement
  have hcontent : sampleFilled.objects.InContent ⟨0⟩ ⟨2⟩ :=
    ⟨e, he, .inr ⟨⟨1⟩, by simp [of_decide_eq_true hchildren], .single hchild⟩⟩
  have helements : ExtensionHandle.elements ⟨.snapshot ⟨0⟩, ⟨0⟩⟩
      (samplePoint.perform sampleFilled).resolver = .ok [⟨.snapshot ⟨0⟩, ⟨1⟩⟩] := by decide +kernel
  have hchildren' : ElementHandle.children ⟨.snapshot ⟨0⟩, ⟨1⟩⟩
      (samplePoint.perform sampleFilled).resolver = .ok [⟨.snapshot ⟨0⟩, ⟨2⟩⟩] := by decide +kernel
  have hgives : DeltaView.Gives ⟨⟨⟨0⟩, ⟨3⟩, .added⟩, ⟨0⟩⟩ (.element ⟨.snapshot ⟨0⟩, ⟨2⟩⟩) :=
    .leads _ (.leads _ .extension (.elements helements List.mem_cons_self))
      (.children hchildren' List.mem_cons_self)
  refine ⟨_, hseen, _, hrun, by decide +kernel, ⟨o, ho, ?_⟩, hgives, hclosed _ .refl _ hgives⟩
  have hshown := (hopen (by decide +kernel)).content _ h (.inl .refl) hcontent ho
  rwa [of_decide_eq_true hkind] at hshown

end PluginRegistry
