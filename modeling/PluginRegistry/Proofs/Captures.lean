import PluginRegistry.Proofs.Changes
import PluginRegistry.Proofs.Histories

/-!
# What a write captures

While a write that is listened to runs, all it has noted so far is captured: of every change the
point, the extension and each element of its content, as they are in the store at that moment
(`Transaction.Captures`). The extension and its content will not change any more; the point is
captured again whenever it gets other children. So at the end of the write the captured objects
show every change whole (`Write.captured_transaction?`).
-/

namespace PluginRegistry

namespace DeltaTracker

variable {s : Store} {k k' k'' : DeltaTracker}

/-! ## Capturing objects -/

/-- What is captured is as it is in the store. -/
def Current (k : DeltaTracker) (s : Store) : Prop :=
  ∀ {x o}, k.captured[x]? = some o → s.object? x = some o

/-- `k'` is `k` with more objects of the store captured. -/
structure Gathers (s : Store) (k k' : DeltaTracker) : Prop where
  recording_eq : k'.recording = k.recording
  deltas_eq : k'.deltas = k.deltas
  more : ∀ {x}, x ∈ k.captured → x ∈ k'.captured
  current : k.Current s → k'.Current s

theorem Gathers.refl (s : Store) (k : DeltaTracker) : Gathers s k k := ⟨rfl, rfl, id, id⟩

theorem Gathers.trans (h : Gathers s k k') (h' : Gathers s k' k'') : Gathers s k k'' where
  recording_eq := h'.recording_eq.trans h.recording_eq
  deltas_eq := h'.deltas_eq.trans h.deltas_eq
  more hx := h'.more (h.more hx)
  current hc := h'.current (h.current hc)

theorem captured_capture (hr : k.recording = true) (o : RegistryObject) (x : ObjectId) :
    (k.capture o).captured[x]? = if o.id = x then some o else k.captured[x]? := by
  simp [capture, hr, Std.ExtTreeMap.getElem?_insert]

theorem mem_captured_iff {x : ObjectId} : x ∈ k.captured ↔ ∃ o, k.captured[x]? = some o := by
  rw [Std.ExtTreeMap.mem_iff_isSome_getElem?, Option.isSome_iff_exists]

theorem mem_capture (hr : k.recording = true) {o : RegistryObject} {x : ObjectId} :
    x ∈ (k.capture o).captured ↔ o.id = x ∨ x ∈ k.captured := by
  rw [mem_captured_iff, mem_captured_iff, captured_capture hr]
  split <;> simp [*]

@[simp] theorem recording_capture (k : DeltaTracker) (o : RegistryObject) :
    (k.capture o).recording = k.recording := by
  unfold capture
  split <;> rfl

@[simp] theorem deltas_capture (k : DeltaTracker) (o : RegistryObject) :
    (k.capture o).deltas = k.deltas := by
  unfold capture
  split <;> rfl

@[simp] theorem captured_record (k : DeltaTracker) (ns : String) (d : ExtensionDelta) :
    (k.record ns d).captured = k.captured := by
  unfold record
  split <;> rfl

theorem gathers_captureAll (hr : k.recording = true) (os : List RegistryObject)
    (hos : ∀ o ∈ os, s.object? o.id = some o) :
    Gathers s k (os.foldl capture k) ∧ ∀ o ∈ os, o.id ∈ (os.foldl capture k).captured := by
  induction os generalizing k with
  | nil => exact ⟨.refl s k, by simp⟩
  | cons o os ih =>
    have hfirst : Gathers s k (k.capture o) := by
      refine ⟨recording_capture k o, deltas_capture k o, fun hx => (mem_capture hr).2 (.inr hx),
        fun hc x o' hx => ?_⟩
      rw [captured_capture hr] at hx
      split at hx
      · rename_i hid
        cases hx
        exact hid ▸ hos o List.mem_cons_self
      · exact hc hx
    obtain ⟨hrest, hmem⟩ := ih ((recording_capture k o).trans hr)
      fun o' ho' => hos o' (List.mem_cons_of_mem _ ho')
    refine ⟨hfirst.trans hrest, fun o' ho' => ?_⟩
    rcases List.mem_cons.1 ho' with rfl | ho'
    · exact hrest.more ((mem_capture hr).2 (.inl rfl))
    · exact hmem o' ho'

/-! ## Capturing changes -/

/-- A change is captured: its point, its extension, and all of the extension's content. -/
structure Covers (k : DeltaTracker) (s : Store) (d : ExtensionDelta) : Prop where
  point : d.point ∈ k.captured ∧ ∃ p, s.point? d.point = some p
  extension : ∃ e, s.extension? d.extension = some e
  content : ∀ x, s.InContent d.extension x → x ∈ k.captured

theorem Covers.more {d : ExtensionDelta} (h : k.Covers s d)
    (hmore : ∀ {x}, x ∈ k.captured → x ∈ k'.captured) : k'.Covers s d where
  point := ⟨hmore h.point.1, h.point.2⟩
  extension := h.extension
  content x hx := hmore (h.content x hx)

/-- All changes that are noted are captured, as they are in the store. -/
structure Complete (k : DeltaTracker) (s : Store) : Prop where
  recording : k.recording = true
  current : k.Current s
  covers : ∀ {ns d}, k.deltas.Files ns d → k.Covers s d

theorem Complete.gathers (h : k.Complete s) (hg : Gathers s k k') : k'.Complete s where
  recording := hg.recording_eq.trans h.recording
  current := hg.current h.current
  covers hd := (h.covers (hg.deltas_eq ▸ hd)).more hg.more

/-- A change may be noted once it is captured. -/
theorem Complete.record (h : k.Complete s) {ns : String} {d : ExtensionDelta} (hd : k.Covers s d) :
    (k.record ns d).Complete s := by
  have heq : k.record ns d = { k with deltas := k.deltas.push ns d } := by
    rw [DeltaTracker.record, if_pos h.recording]
  rw [heq]
  refine ⟨h.recording, h.current, fun {ns' d'} hfiles => ?_⟩
  rcases DeltaMap.files_push.1 hfiles with hold | ⟨-, rfl⟩
  · exact (h.covers hold).more id
  · exact hd.more id

end DeltaTracker

namespace Transaction

open DeltaTracker (Gathers)
open Store (Relinked Rooted Sound Ages)

variable {t t' : Transaction}

theorem gathers_capture (hs : t.objects.Sound) (hr : t.objects.Rooted)
    (hrecording : t.tracker.recording = true) {id : ObjectId} {e : Extension}
    (he : t.objects.extension? id = some e) :
    Gathers t.objects t.tracker (t.capture id).tracker ∧
      ∀ x, t.objects.InContent id x → x ∈ (t.capture id).tracker.captured := by
  have ho := Store.extension?_eq_some_iff.1 he
  unfold capture
  rw [ho]
  dsimp only
  obtain ⟨hgathers, hmem⟩ := DeltaTracker.gathers_captureAll hrecording
    (.extension e :: (t.objects.subtree e.children).filterMap t.objects.object?) fun o hmem => by
      rcases List.mem_cons.1 hmem with rfl | hmem
      · rwa [hs.id_eq ho]
      · obtain ⟨x, -, hx⟩ := List.mem_filterMap.1 hmem
        rwa [hs.id_eq hx]
  refine ⟨hgathers, fun x hx => ?_⟩
  obtain ⟨o, hobject, -⟩ := hr.inContent hx
  obtain ⟨e', he', hcases⟩ := hx
  rw [he] at he'
  cases he'
  have hid := hs.id_eq hobject
  rw [← hid]
  refine hmem o ?_
  rcases hcases with rfl | hbelow
  · rw [ho] at hobject
    cases hobject
    exact List.mem_cons_self
  · exact List.mem_cons_of_mem _ (List.mem_filterMap.2
      ⟨x, (Store.mem_subtree_iff hr.descends).2 hbelow, hobject⟩)

theorem complete_record (hs : t.objects.Sound) (hr : t.objects.Rooted) {p : ExtensionPoint}
    (hp : t.objects.point? p.id = some p) {ids : List ObjectId} (hne : ids ≠ [])
    (hlive : ∀ x ∈ ids, ∃ e, t.objects.extension? x = some e) {kind : DeltaKind}
    (h : (t.tracker.capture (.point p)).Complete t.objects) :
    (t.record p ids kind).2.tracker.Complete t.objects := by
  have run : ∀ (ids : List ObjectId) (t' : Transaction), t'.objects = t.objects →
      (∀ x ∈ ids, ∃ e, t.objects.extension? x = some e) → p.id ∈ t'.tracker.captured →
      t'.tracker.Complete t.objects → (ids.foldl (fun t extension =>
        let t := t.capture extension
        { t with tracker := t.tracker.record p.ns { extension, point := p.id, kind } })
          t').tracker.Complete t.objects := by
    intro ids
    induction ids with
    | nil => exact fun _ _ _ _ hc => hc
    | cons x xs ih =>
      intro t' hobjects hlive hpoint hc
      obtain ⟨e, he⟩ := hlive x List.mem_cons_self
      rw [← hobjects] at hs hr he hc
      obtain ⟨hgathers, hcontent⟩ := gathers_capture hs hr hc.recording he
      have hc' := hc.gathers hgathers
      have hpoint' := hgathers.more hpoint
      have hcovers : (t'.capture x).tracker.Covers t'.objects ⟨x, p.id, kind⟩ :=
        ⟨⟨hpoint', p, by rw [hobjects]; exact hp⟩, ⟨e, he⟩, hcontent⟩
      refine ih _ ((objects_capture t' x).trans hobjects)
        (fun y hy => hlive y (List.mem_cons_of_mem _ hy)) ?_ ?_
      · simpa using hpoint'
      · rw [← hobjects]
        exact hc'.record hcovers
  have hrecording : t.tracker.recording = true := by
    have hcapture := h.recording
    rwa [DeltaTracker.recording_capture] at hcapture
  have hguard : (!t.tracker.recording || ids.isEmpty) = false := by
    rw [hrecording, List.isEmpty_eq_false_iff.2 hne]
    rfl
  unfold record
  rw [hguard]
  refine run ids { t with tracker := t.tracker.capture (.point p) } rfl hlive ?_ h
  exact (DeltaTracker.mem_capture hrecording).2 (.inl rfl)

/-! ## Steps of a write -/

/-- What holds while a write runs that is listened to. -/
structure Captures (t : Transaction) : Prop where
  sound : t.objects.Sound
  rooted : t.objects.Rooted
  complete : t.tracker.Complete t.objects

theorem Captures.congr (h : t.Captures) (hs : t'.objects.Sound) (hr : t'.objects.Rooted)
    (htracker : t'.tracker = t.tracker)
    (hkept : ∀ x o, t.objects.object? x = some o → t'.objects.object? x = some o)
    (hages : Ages t.objects t'.objects) : t'.Captures := by
  refine ⟨hs, hr, ?_, ?_, ?_⟩
  · rw [htracker]
    exact h.complete.recording
  · intro x o hx
    rw [htracker] at hx
    exact hkept x o (h.complete.current hx)
  · intro ns d hd
    rw [htracker] at hd ⊢
    obtain ⟨⟨hpoint, p, hp⟩, ⟨e, he⟩, hcontent⟩ := h.complete.covers hd
    have he' := Store.extension?_eq_some_iff.2 (hkept _ _ (Store.extension?_eq_some_iff.1 he))
    refine ⟨⟨hpoint, p, ?_⟩, ⟨e, he'⟩, fun x hx => hcontent x ?_⟩
    · exact Store.point?_eq_some_iff.2 (hkept _ _ (Store.point?_eq_some_iff.1 hp))
    · exact (hages.inContent_iff h.rooted hr
        (Store.index_lt_of_object? (Store.extension?_eq_some_iff.1 he)) he').1 hx

theorem Captures.report (h : t.Captures) (record : LogRecord) : (t.report record).Captures :=
  ⟨h.sound, h.rooted, h.complete⟩

theorem Captures.parks (h : t.Captures) (hp : Parks t t') : t'.Captures :=
  h.congr (hp.relinked.sound h.sound) (h.rooted.relinked hp.relinked) hp.tracker_eq
    (fun x o ho => by rwa [Store.object?, hp.slots_eq]) (.of_relinked hp.relinked)

theorem Captures.moves (h : t.Captures) {p : ExtensionPoint} {children ids : List ObjectId}
    {kind : DeltaKind} (hids : t.Linkable ids) (hm : Moves t p children ids kind t') :
    t'.Captures := by
  have hrelinked := hm.regroups.relinked
  have hs' := hrelinked.sound h.sound
  have hr' := h.rooted.relinked hrelinked
  refine ⟨hs', hr', ?_⟩
  obtain ⟨t₁, hregroups, htracker, rfl⟩ := hm
  rw [objects_record] at hs' hr' hrelinked ⊢
  have hpoint : t₁.objects.point? p.id = some { p with children } := by
    rw [hregroups.point?_eq, if_pos rfl]
  have hrecording := h.complete.recording
  rw [← htracker] at hrecording
  refine complete_record hs' hr' hpoint hids.nonempty (fun x hx => ?_) ⟨?_, ?_, ?_⟩
  · rw [hrelinked.extension?_eq]
    exact hids.live x hx
  · rw [DeltaTracker.recording_capture, hrecording]
  · -- the only object that changed is the point, which is captured anew
    intro x o hx
    rw [DeltaTracker.captured_capture hrecording] at hx
    split at hx
    · rename_i hid
      cases hx
      exact hid ▸ Store.point?_eq_some_iff.1 hpoint
    · rename_i hne
      rw [htracker] at hx
      have ho := h.complete.current hx
      cases o with
      | point q =>
        rw [← Store.point?_eq_some_iff] at ho ⊢
        rwa [hregroups.point?_eq, if_neg fun e => hne e.symm]
      | extension e => exact hrelinked.symm.object?_of_kind nofun ho
      | element e => exact hrelinked.symm.object?_of_kind nofun ho
  · intro ns d hd
    rw [DeltaTracker.deltas_capture, htracker] at hd
    obtain ⟨⟨hmem, q, hq⟩, ⟨e, he⟩, hcontent⟩ := h.complete.covers hd
    have hmore : ∀ {x}, x ∈ t.tracker.captured →
        x ∈ (t₁.tracker.capture (.point { p with children })).captured := fun hx =>
      (DeltaTracker.mem_capture hrecording).2 (.inr (htracker ▸ hx))
    have he' : t₁.objects.extension? d.extension = some e := by rw [hrelinked.extension?_eq, he]
    obtain ⟨cs, hq'⟩ := hrelinked.symm.point? hq
    refine ⟨⟨hmore hmem, _, hq'⟩, ⟨e, he'⟩, fun x hx => hmore (hcontent x ?_)⟩
    exact ((Ages.of_relinked hrelinked).inContent_iff h.rooted hr'
      (Store.index_lt_of_object? (Store.extension?_eq_some_iff.1 he)) he').1 hx

theorem Captures.adds (h : t.Captures) (hstep : Adds t t') : t'.Captures := by
  cases hstep with
  | parks hp => exact h.parks hp
  | moves _ hids _ _ hm => exact h.moves hids hm

theorem Captures.drops (h : t.Captures) (hstep : Drops t t') : t'.Captures := by
  cases hstep with
  | parks hp => exact h.parks hp
  | moves _ hids _ _ hm => exact h.moves hids hm

/-! ## Whole writes -/

theorem Captures.stored (h : t.Captures) (hsettled : t.objects.Settled) (p : PreparedDeclaration)
    (hn : (t.ingest p).2.objects.nextId ≤ UInt32.size) : (t.stored p).2.2.Captures := by
  obtain ⟨hsettled', t', record, hadds, heq⟩ := settled_ingest hsettled p hn
  have hrooted := rooted_ingest hsettled h.rooted p hn
  have hrelinked := (relinked_of_adds hadds).symm
  rw [heq, objects_report] at hsettled' hrooted
  obtain ⟨s₁, s₂, hp, he, -, hobjects⟩ := founds_stored hsettled.sound p hn
  refine h.congr (hrelinked.sound hsettled'.sound) (hrooted.relinked hrelinked)
    (tracker_stored t p) (fun x o ho => ?_) (ages_stored hsettled.sound p hn)
  rw [hobjects]
  exact (Store.object?_of_old hp he (Store.index_lt_of_object? ho)).trans ho

theorem captures_start (hs : t.objects.Sound) (hr : t.objects.Rooted)
    (htracker : t.tracker = .start true) : t.Captures := by
  refine ⟨hs, hr, ?_⟩
  rw [htracker]
  exact ⟨rfl, fun hx => by simp [DeltaTracker.start] at hx,
    fun hd => absurd hd DeltaMap.not_files_empty⟩

end Transaction

/-! ## The moment after the last link -/

/-- `u` is the store of a write from `s` to `s'` from when no link changes any more: its extensions
are in one of the two, and a point that is not in `s'` any more has lost its children. -/
structure Store.Midway (s u s' : Store) : Prop where
  rooted : u.Rooted
  before : s.Ages u
  after : u.Ages s'
  live : ∀ {id e}, u.extension? id = some e → s.extension? id = some e ∨ s'.extension? id = some e
  point : ∀ {id p}, u.point? id = some p → s'.point? id = some p ∨
    (s'.point? id = none ∧ p.children = [] ∧ ∃ children, s.point? id = some { p with children })

namespace Transaction

open Store (Midway Ages)

variable {t : Transaction}

theorem midway_ingestAll (h : t.objects.Whole) (ps : List PreparedDeclaration)
    (hn : (t.ingestAll ps).objects.nextId ≤ UInt32.size) :
    Midway t.objects (t.ingestAll ps).objects (t.ingestAll ps).objects where
  rooted := (whole_ingestAll h ps hn).rooted
  before := ages_ingestAll h.settled ps hn
  after := .refl _
  live he := .inr he
  point hp := .inl hp

theorem midway_unlinkAll (h : t.objects.Whole) {c : ContributorId}
    (hc : t.objects.hasContribution c = true) :
    Midway t.objects (t.unlinkAll c).2.objects (t.purged c) := by
  obtain ⟨known, hknown⟩ := Option.isSome_iff_exists.1 hc
  have hr := relinked_of_drops (linked_unlinkAll h.settled hknown).1
  refine ⟨h.rooted.relinked hr, .of_relinked hr, ages_purged t c,
    fun he => .inl ((hr.extension?_eq _).symm.trans he), fun {id p} hp => ?_⟩
  by_cases howned : id ∈ (t.unlinkAll c).2.objects.associated c
  · refine .inr ⟨?_, children_of_associated h.settled hc hp howned, hr.point? hp⟩
    rw [Option.eq_none_iff_forall_ne_some]
    intro q hq
    exact ((point?_purged t c).1 hq).2 howned
  · exact .inl ((point?_purged t c).2 ⟨hp, howned⟩)

end Transaction

/-- What a write that is listened to has captured at its end is complete since its last link. -/
theorem Write.captured_transaction? {r : Registry} {w : Write} {t : Transaction}
    (h : r.objects.Whole) (hl : r.listeners ≠ []) (ht : w.transaction? r = some t)
    (hn : t.objects.nextId ≤ UInt32.size) :
    ∃ u, t.tracker.Complete u ∧ r.objects.Midway u t.objects := by
  obtain ⟨t₀, hobjects, htracker, hdone⟩ := transaction?_cases ht
  rw [← hobjects] at h ⊢
  have hstart : t₀.Captures := Transaction.captures_start h.settled.sound h.rooted (by
    rw [htracker, List.isEmpty_eq_false_iff.2 hl]
    rfl)
  rcases hdone with ⟨prepared, rfl⟩ | ⟨c, rfl⟩
  · have hcaptures := Transaction.ingestAll_induction (fun hs hn hQ => hQ.stored hs _ hn)
      Transaction.Captures.adds (fun hQ => hQ.report _) h.settled prepared hn hstart
    exact ⟨_, hcaptures.complete, Transaction.midway_ingestAll h prepared hn⟩
  · cases hc : t₀.objects.hasContribution c with
    | false =>
      rw [Transaction.removeContributor_of_unknown hc]
      exact ⟨_, hstart.complete, h.rooted, .refl _, .refl _, .inl, .inl⟩
    | true =>
      obtain ⟨record, heq⟩ := Transaction.removeContributor_of_known hc
      rw [heq]
      exact ⟨_, (Transaction.unlinkAll_induction Transaction.Captures.drops h.settled hc
        hstart).complete, Transaction.midway_unlinkAll h hc⟩

end PluginRegistry
