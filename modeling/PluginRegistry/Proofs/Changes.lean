import PluginRegistry.Proofs.DeltaMaps
import PluginRegistry.Proofs.Writes

/-!
# The changes of a write

The delta map of a write is the difference between the links before it and the links after it,
each change filed under the namespace of its point (`DeltaMap.Exact`).

A write either adds links or drops links, never both. While links are added (`Gains`) the notes so
far are the difference between the beginning and now, and no link of the beginning is lost; so a
link that is new now is not in the notes yet. `Loses` is the same the other way round.
-/

namespace PluginRegistry

namespace Store

/-! ## Links and their differences -/

/-- The extension `x` is linked to the live point `q`. -/
def HasLink (s : Store) (x q : ObjectId) : Prop := ∃ p, s.point? q = some p ∧ x ∈ p.children

/-- The same, and the point is in the namespace `ns`. -/
def LinkIn (s : Store) (ns : String) (x q : ObjectId) : Prop :=
  ∃ p, s.point? q = some p ∧ p.ns = ns ∧ x ∈ p.children

/-- The change `d` lies between two stores, at a point of the namespace `ns`. -/
def Differs (s s' : Store) (ns : String) (d : ExtensionDelta) : Prop :=
  match d.kind with
  | .added => s'.LinkIn ns d.extension d.point ∧ ¬s.HasLink d.extension d.point
  | .removed => s.LinkIn ns d.extension d.point ∧ ¬s'.HasLink d.extension d.point

variable {s s' s'' : Store} {ns : String} {x q : ObjectId}

theorem hasLink_iff : s.HasLink x q ↔ ∃ ns, s.LinkIn ns x q := by
  constructor
  · rintro ⟨p, hp, hx⟩
    exact ⟨p.ns, p, hp, rfl, hx⟩
  · rintro ⟨-, p, hp, -, hx⟩
    exact ⟨p, hp, hx⟩

theorem LinkIn.hasLink (h : s.LinkIn ns x q) : s.HasLink x q := hasLink_iff.2 ⟨ns, h⟩

theorem LinkIn.ns_eq {ns' : String} (h : s.LinkIn ns x q) (h' : s.LinkIn ns' x q) : ns = ns' := by
  obtain ⟨p, hp, rfl, -⟩ := h
  obtain ⟨p', hp', rfl, -⟩ := h'
  rw [hp] at hp'
  cases hp'
  rfl

theorem differs_self {d : ExtensionDelta} : ¬s.Differs s ns d := by
  unfold Differs
  split <;> exact fun ⟨h, hn⟩ => hn h.hasLink

theorem linkIn_of_point?_eq (h : ∀ id, s'.point? id = s.point? id) :
    s'.LinkIn ns x q ↔ s.LinkIn ns x q := by
  unfold LinkIn
  rw [h]

theorem linkIn_regroups {p : ExtensionPoint} {children : List ObjectId}
    (h : s.Regroups p children s') :
    s'.LinkIn ns x q ↔ if q = p.id then p.ns = ns ∧ x ∈ children else s.LinkIn ns x q := by
  unfold LinkIn
  rw [h.point?_eq]
  split <;> simp

theorem linkIn_at {p : ExtensionPoint} (hp : s.point? p.id = some p) :
    s.LinkIn ns x p.id ↔ p.ns = ns ∧ x ∈ p.children := by
  unfold LinkIn
  rw [hp]
  simp

/-- New links in one place are new differences, if no link was lost so far. -/
theorem differs_gain {u : String} {point : ObjectId} {ids : List ObjectId} {d : ExtensionDelta}
    (hkeeps : ∀ {ns x q}, s.LinkIn ns x q → s'.LinkIn ns x q)
    (hnew : ∀ x ∈ ids, ¬s'.HasLink x point)
    (hlink : ∀ ns x q, s''.LinkIn ns x q ↔
      s'.LinkIn ns x q ∨ (ns = u ∧ x ∈ ids ∧ q = point)) :
    s.Differs s'' ns d ↔ s.Differs s' ns d ∨
      (ns = u ∧ d.extension ∈ ids ∧ d.point = point ∧ d.kind = .added) := by
  have hkept : ∀ {x q}, s.HasLink x q → s'.HasLink x q := fun h => by
    obtain ⟨ns, h⟩ := hasLink_iff.1 h
    exact (hkeeps h).hasLink
  obtain ⟨x, q, kind⟩ := d
  cases kind with
  | added =>
    simp only [Differs, hlink]
    constructor
    · rintro ⟨h | ⟨rfl, hx, rfl⟩, hn⟩
      · exact .inl ⟨h, hn⟩
      · exact .inr ⟨rfl, hx, rfl, trivial⟩
    · rintro (⟨h, hn⟩ | ⟨rfl, hx, rfl, -⟩)
      · exact ⟨.inl h, hn⟩
      · exact ⟨.inr ⟨rfl, hx, rfl⟩, fun h => hnew x hx (hkept h)⟩
  | removed =>
    simp only [Differs]
    constructor
    · rintro ⟨h, hn⟩
      exact absurd (((hlink ns x q).2 (.inl (hkeeps h))).hasLink) hn
    · rintro (⟨h, hn⟩ | ⟨-, -, -, hk⟩)
      · exact absurd (hkeeps h).hasLink hn
      · cases hk

theorem differs_loss {u : String} {point : ObjectId} {ids : List ObjectId} {d : ExtensionDelta}
    (hfewer : ∀ {ns x q}, s'.LinkIn ns x q → s.LinkIn ns x q)
    (hold : ∀ x ∈ ids, s'.LinkIn u x point)
    (hlink : ∀ ns x q, s''.LinkIn ns x q ↔ s'.LinkIn ns x q ∧ ¬(x ∈ ids ∧ q = point)) :
    s.Differs s'' ns d ↔ s.Differs s' ns d ∨
      (ns = u ∧ d.extension ∈ ids ∧ d.point = point ∧ d.kind = .removed) := by
  have hlink' : ∀ {x q}, s''.HasLink x q ↔ s'.HasLink x q ∧ ¬(x ∈ ids ∧ q = point) := by
    intro x q
    simp only [hasLink_iff, hlink, exists_and_right]
  obtain ⟨x, q, kind⟩ := d
  cases kind with
  | added =>
    simp only [Differs]
    constructor
    · rintro ⟨h, hn⟩
      exact absurd (hfewer ((hlink ns x q).1 h).1).hasLink hn
    · rintro (⟨h, hn⟩ | ⟨-, -, -, hk⟩)
      · exact absurd (hfewer h).hasLink hn
      · cases hk
  | removed =>
    simp only [Differs, hlink']
    constructor
    · rintro ⟨h, hn⟩
      by_cases hx : s'.HasLink x q
      · obtain ⟨hids, rfl⟩ : x ∈ ids ∧ q = point := by_contra fun hout => hn ⟨hx, hout⟩
        exact .inr ⟨h.ns_eq (hfewer (hold x hids)), hids, rfl, trivial⟩
      · exact .inl ⟨h, hx⟩
    · rintro (⟨h, hn⟩ | ⟨rfl, hx, rfl, -⟩)
      · exact ⟨h, fun h' => hn h'.1⟩
      · exact ⟨hfewer (hold x hx), fun h' => h'.2 ⟨hx, rfl⟩⟩

end Store

open Store (Differs)

/-- The changes in a map are those between two stores, and each is filed once. -/
structure DeltaMap.Exact (m : DeltaMap) (s s' : Store) : Prop where
  tidy : m.Tidy
  files_iff : ∀ ns d, m.Files ns d ↔ s.Differs s' ns d

theorem DeltaMap.exact_empty (s : Store) : DeltaMap.empty.Exact s s where
  tidy := tidy_empty
  files_iff _ _ := ⟨fun h => absurd h not_files_empty, fun h => absurd h Store.differs_self⟩

theorem DeltaMap.Exact.congr {m : DeltaMap} {s s' s'' : Store} (h : m.Exact s s')
    (hlink : ∀ ns x q, s''.LinkIn ns x q ↔ s'.LinkIn ns x q) : m.Exact s s'' where
  tidy := h.tidy
  files_iff ns d := by
    have hlink' : ∀ x q, s''.HasLink x q ↔ s'.HasLink x q := fun x q => by
      simp only [Store.hasLink_iff, hlink]
    rw [h.files_iff]
    simp only [Differs, hlink, hlink']

namespace Transaction

/-- No link changed and nothing was noted. -/
structure Rests (t t' : Transaction) : Prop where
  linkIn_iff : ∀ ns x q, t'.objects.LinkIn ns x q ↔ t.objects.LinkIn ns x q
  tracker_eq : t'.tracker = t.tracker

theorem Parks.rests {t t' : Transaction} (h : Parks t t') : Rests t t' where
  linkIn_iff _ _ _ := Store.linkIn_of_point?_eq (Store.point?_congr h.slots_eq)
  tracker_eq := h.tracker_eq

/-! ## Noting a change -/

@[simp] theorem recording_capture (t : DeltaTracker) (o : RegistryObject) :
    (t.capture o).recording = t.recording := by
  unfold DeltaTracker.capture
  split <;> rfl

@[simp] theorem deltas_capture (t : DeltaTracker) (o : RegistryObject) :
    (t.capture o).deltas = t.deltas := by
  unfold DeltaTracker.capture
  split <;> rfl

theorem foldl_capture (os : List RegistryObject) (t : DeltaTracker) :
    (os.foldl DeltaTracker.capture t).recording = t.recording ∧
      (os.foldl DeltaTracker.capture t).deltas = t.deltas := by
  induction os generalizing t with
  | nil => exact ⟨rfl, rfl⟩
  | cons o os ih =>
    obtain ⟨hr, hd⟩ := ih (t.capture o)
    exact ⟨by simpa using hr, by simpa using hd⟩

theorem tracker_capture (t : Transaction) (id : ObjectId) :
    (t.capture id).tracker.recording = t.tracker.recording ∧
      (t.capture id).tracker.deltas = t.tracker.deltas := by
  unfold capture
  split
  · exact ⟨rfl, rfl⟩
  · exact foldl_capture _ _

theorem tracker_record (t : Transaction) (p : ExtensionPoint) (ids : List ObjectId)
    (kind : DeltaKind) :
    (t.record p ids kind).2.tracker.recording = t.tracker.recording ∧
      (t.record p ids kind).2.tracker.deltas =
        if t.tracker.recording then t.tracker.deltas.pushAll p.ns p.id kind ids
        else t.tracker.deltas := by
  have run : ∀ (ids : List ObjectId) (t : Transaction), t.tracker.recording = true →
      (ids.foldl (fun t extension =>
        let t := t.capture extension
        { t with tracker := t.tracker.record p.ns { extension, point := p.id, kind } })
          t).tracker.recording = true ∧
      (ids.foldl (fun t extension =>
        let t := t.capture extension
        { t with tracker := t.tracker.record p.ns { extension, point := p.id, kind } })
          t).tracker.deltas = t.tracker.deltas.pushAll p.ns p.id kind ids := by
    intro ids
    induction ids with
    | nil => exact fun t ht => ⟨ht, rfl⟩
    | cons id ids ih =>
      intro t ht
      obtain ⟨hr, hd⟩ := tracker_capture t id
      have hrec : (t.capture id).tracker.record p.ns { extension := id, point := p.id, kind } =
          { (t.capture id).tracker with
            deltas := t.tracker.deltas.push p.ns { extension := id, point := p.id, kind } } := by
        unfold DeltaTracker.record
        rw [if_pos (hr.trans ht), hd]
      obtain ⟨hr', hd'⟩ := ih { t.capture id with
        tracker := (t.capture id).tracker.record p.ns { extension := id, point := p.id, kind } }
        (by rw [hrec]; exact hr.trans ht)
      refine ⟨hr', hd'.trans ?_⟩
      simp only [hrec]
      rfl
  unfold record
  cases hr : t.tracker.recording with
  | false => exact ⟨hr, rfl⟩
  | true =>
    cases ids with
    | nil => exact ⟨hr, rfl⟩
    | cons id ids =>
      have h := run (id :: ids) { t with tracker := t.tracker.capture (.point p) }
        (by simpa using hr)
      exact ⟨h.1, h.2.trans (by simp)⟩

/-- A step that moves children either notes them all or, if it does not record, nothing. -/
theorem Moves.tracker {t t' : Transaction} {p : ExtensionPoint} {children ids : List ObjectId}
    {kind : DeltaKind} (h : Moves t p children ids kind t') :
    t'.tracker.recording = t.tracker.recording ∧ t'.tracker.deltas =
      if t.tracker.recording then t.tracker.deltas.pushAll p.ns p.id kind ids
      else t.tracker.deltas := by
  obtain ⟨t₁, -, htracker, rfl⟩ := h
  have hrecord := tracker_record t₁ { p with children } ids kind
  rwa [htracker] at hrecord

/-! ## While links are added -/

/-- The notes are the difference to the store at the beginning, and no link of it is lost. -/
structure Gains (s : Store) (t : Transaction) : Prop where
  recording : t.tracker.recording = true
  keeps : ∀ {ns x q}, s.LinkIn ns x q → t.objects.LinkIn ns x q
  exact : t.tracker.deltas.Exact s t.objects

theorem Gains.rests {s : Store} {t t' : Transaction} (h : Gains s t) (hr : Rests t t') :
    Gains s t' where
  recording := by rw [hr.tracker_eq]; exact h.recording
  keeps hl := (hr.linkIn_iff _ _ _).2 (h.keeps hl)
  exact := by
    rw [hr.tracker_eq]
    exact h.exact.congr hr.linkIn_iff

theorem Gains.adds {s : Store} {t t' : Transaction} (h : Gains s t) (hstep : Adds t t') :
    Gains s t' := by
  cases hstep with
  | parks hp => exact h.rests hp.rests
  | @moves p children ids hp hids hnew hmem hm =>
    obtain ⟨hrecording, hdeltas⟩ := hm.tracker
    rw [if_pos h.recording] at hdeltas
    have hlink : ∀ ns x q, t'.objects.LinkIn ns x q ↔
        t.objects.LinkIn ns x q ∨ (ns = p.ns ∧ x ∈ ids ∧ q = p.id) := by
      intro ns x q
      rw [Store.linkIn_regroups hm.regroups]
      by_cases hq : q = p.id
      · subst hq
        simp only [if_true, Store.linkIn_at hp, hmem, and_true, eq_comm (a := ns), and_or_left]
      · simp [hq]
    have hunlinked : ∀ x ∈ ids, ¬t.objects.HasLink x p.id := by
      rintro x hx ⟨p', hp', hx'⟩
      rw [hp] at hp'
      cases hp'
      exact hnew x hx hx'
    refine ⟨hrecording.trans h.recording, fun hl => (hlink _ _ _).2 (.inl (h.keeps hl)), ?_⟩
    rw [hdeltas]
    refine ⟨h.exact.tidy.pushAll hids.nodup (fun x hx hall => ?_) p.ns, fun ns d => ?_⟩
    · obtain ⟨ns, hfiles⟩ := DeltaMap.mem_all_iff.1 hall
      exact hunlinked x hx ((h.exact.files_iff ns _).1 hfiles).1.hasLink
    · rw [DeltaMap.files_pushAll, h.exact.files_iff, Store.differs_gain h.keeps hunlinked hlink]

/-! ## While links are dropped -/

/-- The notes are the difference to the store at the beginning, and no link is new. -/
structure Loses (s : Store) (t : Transaction) : Prop where
  recording : t.tracker.recording = true
  fewer : ∀ {ns x q}, t.objects.LinkIn ns x q → s.LinkIn ns x q
  exact : t.tracker.deltas.Exact s t.objects

theorem Loses.rests {s : Store} {t t' : Transaction} (h : Loses s t) (hr : Rests t t') :
    Loses s t' where
  recording := by rw [hr.tracker_eq]; exact h.recording
  fewer hl := h.fewer ((hr.linkIn_iff _ _ _).1 hl)
  exact := by
    rw [hr.tracker_eq]
    exact h.exact.congr hr.linkIn_iff

theorem Loses.drops {s : Store} {t t' : Transaction} (h : Loses s t) (hstep : Drops t t') :
    Loses s t' := by
  cases hstep with
  | parks hp => exact h.rests hp.rests
  | @moves p children ids hp hids hold hmem hm =>
    obtain ⟨hrecording, hdeltas⟩ := hm.tracker
    rw [if_pos h.recording] at hdeltas
    have hlink : ∀ ns x q, t'.objects.LinkIn ns x q ↔
        t.objects.LinkIn ns x q ∧ ¬(x ∈ ids ∧ q = p.id) := by
      intro ns x q
      rw [Store.linkIn_regroups hm.regroups]
      by_cases hq : q = p.id
      · subst hq
        simp only [if_true, Store.linkIn_at hp, hmem, and_true, and_assoc]
      · simp [hq]
    have hlinked : ∀ x ∈ ids, t.objects.LinkIn p.ns x p.id :=
      fun x hx => (Store.linkIn_at hp).2 ⟨rfl, hold x hx⟩
    refine ⟨hrecording.trans h.recording, fun hl => h.fewer ((hlink _ _ _).1 hl).1, ?_⟩
    rw [hdeltas]
    refine ⟨h.exact.tidy.pushAll hids.nodup (fun x hx hall => ?_) p.ns, fun ns d => ?_⟩
    · obtain ⟨ns, hfiles⟩ := DeltaMap.mem_all_iff.1 hall
      exact ((h.exact.files_iff ns _).1 hfiles).2 (hlinked x hx).hasLink
    · rw [DeltaMap.files_pushAll, h.exact.files_iff, Store.differs_loss h.fewer hlinked hlink]

/-! ## While nothing is noted -/

/-- Nobody listens, so nothing is noted. -/
def Silent (t : Transaction) : Prop := t.tracker.recording = false ∧ t.tracker.deltas = .empty

theorem Silent.rests {t t' : Transaction} (h : Silent t) (hr : Rests t t') : Silent t' := by
  unfold Silent
  rw [hr.tracker_eq]
  exact h

theorem Silent.moves {t t' : Transaction} {p : ExtensionPoint} {children ids : List ObjectId}
    {kind : DeltaKind} (h : Silent t) (hm : Moves t p children ids kind t') : Silent t' := by
  obtain ⟨hrecording, hdeltas⟩ := hm.tracker
  rw [h.1] at hrecording hdeltas
  exact ⟨hrecording, by simpa using hdeltas.trans (by simpa using h.2)⟩

theorem Silent.adds {t t' : Transaction} (h : Silent t) (hstep : Adds t t') : Silent t' := by
  cases hstep with
  | parks hp => exact h.rests hp.rests
  | moves _ _ _ _ hm => exact h.moves hm

theorem Silent.drops {t t' : Transaction} (h : Silent t) (hstep : Drops t t') : Silent t' := by
  cases hstep with
  | parks hp => exact h.rests hp.rests
  | moves _ _ _ _ hm => exact h.moves hm

/-! ## Whole writes -/

theorem rests_report (t : Transaction) (record : LogRecord) : Rests t (t.report record) :=
  ⟨fun _ _ _ => Iff.rfl, tracker_report t record⟩

theorem rests_stored {t : Transaction} (hs : t.objects.Sound) (p : PreparedDeclaration)
    (hn : (t.ingest p).2.objects.nextId ≤ UInt32.size) : Rests t (t.stored p).2.2 := by
  obtain ⟨s₁, s₂, hp, he, -, hobjects⟩ := founds_stored hs p hn
  refine ⟨fun ns x q => ?_, tracker_stored t p⟩
  rw [hobjects]
  constructor
  · rintro ⟨point, hpoint, hns, hx⟩
    rcases Store.point?_grown hp he hpoint with ⟨-, hold⟩ | ⟨-, hc⟩
    · exact ⟨point, hold, hns, hx⟩
    · rw [hc] at hx
      simp at hx
  · rintro ⟨point, hpoint, hns, hx⟩
    refine ⟨point, ?_, hns, hx⟩
    rw [Store.point?_eq_some_iff] at hpoint ⊢
    exact (Store.object?_of_old hp he (Store.index_lt_of_object? hpoint)).trans hpoint

theorem ingestAll_induction {Q : Transaction → Prop}
    (hstored : ∀ {t p}, t.objects.Settled → (t.ingest p).2.objects.nextId ≤ UInt32.size → Q t →
      Q (t.stored p).2.2)
    (hadds : ∀ {t t'}, Q t → Adds t t' → Q t') (hreport : ∀ {t record}, Q t → Q (t.report record))
    {t : Transaction} (h : t.objects.Settled) (ps : List PreparedDeclaration)
    (hn : (t.ingestAll ps).objects.nextId ≤ UInt32.size) (hQ : Q t) : Q (t.ingestAll ps) := by
  induction ps generalizing t with
  | nil => exact hQ
  | cons p ps ih =>
    have hn' := (nextId_le_ingestAll (t.ingest p).2 ps).trans hn
    obtain ⟨hsettled, t', record, hrun, heq⟩ := settled_ingest h p hn'
    have hlinked : Q t' := by
      clear heq
      induction hrun with
      | refl => exact hstored h hn' hQ
      | tail _ hstep ih => exact hadds ih hstep
    have hingested : Q (t.ingest p).2 := by
      rw [heq]
      exact hreport hlinked
    exact ih hsettled hn hingested

theorem linkIn_purged {t : Transaction} (h : t.objects.Settled) {c : ContributorId}
    (hc : t.objects.hasContribution c = true) (ns : String) (x q : ObjectId) :
    (t.purged c).LinkIn ns x q ↔ (t.unlinkAll c).2.objects.LinkIn ns x q := by
  unfold Store.LinkIn
  simp only [point?_purged]
  refine exists_congr fun p => ?_
  rw [and_assoc, and_congr_right_iff]
  intro hp
  refine and_iff_right_of_imp ?_
  rintro ⟨-, hx⟩ howned
  rw [children_of_associated h hc hp howned] at hx
  simp at hx

theorem unlinkAll_induction {Q : Transaction → Prop} (hdrops : ∀ {t t'}, Q t → Drops t t' → Q t')
    {t : Transaction} (h : t.objects.Settled) {c : ContributorId}
    (hc : t.objects.hasContribution c = true) (hQ : Q t) : Q (t.unlinkAll c).2 := by
  obtain ⟨known, hknown⟩ := Option.isSome_iff_exists.1 hc
  obtain ⟨hrun, -⟩ := linked_unlinkAll h hknown
  generalize (t.unlinkAll c).2 = t' at hrun
  induction hrun with
  | refl => exact hQ
  | tail _ hstep ih => exact hdrops ih hstep

theorem removeContributor_induction {Q : Transaction → Prop}
    (hrests : ∀ {t t'}, Q t → Rests t t' → Q t') (hdrops : ∀ {t t'}, Q t → Drops t t' → Q t')
    {t : Transaction} (h : t.objects.Settled) (c : ContributorId) (hQ : Q t) :
    Q (t.removeContributor c).2 := by
  cases hc : t.objects.hasContribution c with
  | false =>
    rw [removeContributor_of_unknown hc]
    exact hQ
  | true =>
    obtain ⟨record, heq⟩ := removeContributor_of_known hc
    rw [heq]
    exact hrests (unlinkAll_induction hdrops h hc hQ) ⟨linkIn_purged h hc, rfl⟩

end Transaction

namespace Write

def deltas (r : Registry) (w : Write) : DeltaMap :=
  match w.transaction? r with
  | none => .empty
  | some t => (t.tracker.finish r.dispatcher.snapshots).1

open Transaction (Gains Loses Silent rests_stored rests_report)

/-- The notes of a write are exact at its end if someone listens, and what is linked before and
after is so in one namespace; if nobody listens there are no notes. -/
theorem exact_transaction? {r : Registry} {w : Write} {t : Transaction}
    (h : r.objects.Settled) (ht : w.transaction? r = some t)
    (hn : t.objects.nextId ≤ UInt32.size) :
    (r.listeners = [] → t.tracker.deltas = .empty) ∧
      (r.listeners ≠ [] → t.tracker.deltas.Exact r.objects t.objects ∧
        ∀ {ns ns' x q}, r.objects.LinkIn ns x q → t.objects.LinkIn ns' x q → ns = ns') := by
  obtain ⟨t₀, hobjects, htracker, hdone⟩ := transaction?_cases ht
  rw [← hobjects] at h ⊢
  have hdeltas : t₀.tracker.deltas = .empty := by rw [htracker]; rfl
  refine ⟨fun hnone => ?_, fun hsome => ?_⟩
  · have hsilent : Silent t₀ := ⟨by rw [htracker, hnone]; rfl, hdeltas⟩
    rcases hdone with ⟨prepared, rfl⟩ | ⟨c, rfl⟩
    · exact (Transaction.ingestAll_induction (fun h hn hQ => hQ.rests (rests_stored h.sound _ hn))
        Silent.adds (fun hQ => hQ.rests (rests_report _ _)) h prepared hn hsilent).2
    · exact (Transaction.removeContributor_induction Silent.rests Silent.drops h c hsilent).2
  · have hrecording : t₀.tracker.recording = true := by
      rw [htracker]
      simpa [DeltaTracker.start] using hsome
    have hexact : t₀.tracker.deltas.Exact t₀.objects t₀.objects := by
      rw [hdeltas]
      exact DeltaMap.exact_empty _
    rcases hdone with ⟨prepared, rfl⟩ | ⟨c, rfl⟩
    · have hgains := Transaction.ingestAll_induction
        (fun h hn hQ => hQ.rests (rests_stored h.sound _ hn)) Gains.adds
        (fun hQ => hQ.rests (rests_report _ _)) h prepared hn ⟨hrecording, id, hexact⟩
      exact ⟨hgains.exact, fun hl hl' => (hgains.keeps hl).ns_eq hl'⟩
    · have hloses := Transaction.removeContributor_induction Loses.rests Loses.drops h c
        ⟨hrecording, id, hexact⟩
      exact ⟨hloses.exact, fun hl hl' => hl.ns_eq (hloses.fewer hl')⟩

theorem finish_deltas (t : DeltaTracker) (snapshots : Snapshots) :
    (t.deltas = .empty ∧ (t.finish snapshots).1 = .empty) ∨
      (t.deltas ≠ .empty ∧ ∃ id, (t.finish snapshots).1 = t.deltas.withSnapshot id ∧
        (t.finish snapshots).2.1.captured? id = some t.captured) := by
  unfold DeltaTracker.finish
  obtain ⟨recording, ⟨entries⟩, captured⟩ := t
  cases entries with
  | nil => exact .inl ⟨rfl, rfl⟩
  | cons entry entries =>
    exact .inr ⟨by simp [DeltaMap.empty], _, rfl, by
      simp [DeltaMap.isEmpty, Snapshots.add, Snapshots.captured?]⟩

/-- The delta map of a write that is listened to is exact. -/
theorem exact_deltas {r : Registry} (h : r.objects.Settled) (w : Write)
    (hn : (w.perform r).objects.nextId ≤ UInt32.size) (hl : r.listeners ≠ []) :
    (w.deltas r).Exact r.objects (w.perform r).objects ∧
      ∀ {ns ns' x q}, r.objects.LinkIn ns x q → (w.perform r).objects.LinkIn ns' x q →
        ns = ns' := by
  have hleaves := w.leaves_perform r
  unfold deltas
  cases ht : w.transaction? r with
  | none =>
    rw [ht] at hleaves
    rw [hleaves.1]
    exact ⟨DeltaMap.exact_empty _, Store.LinkIn.ns_eq⟩
  | some t =>
    rw [ht] at hleaves
    rw [hleaves.1] at hn ⊢
    obtain ⟨hexact, hns⟩ := (exact_transaction? h ht hn).2 hl
    refine ⟨?_, hns⟩
    rcases finish_deltas t.tracker r.dispatcher.snapshots with ⟨he, hf⟩ | ⟨-, id, hf, -⟩
    · simp only [hf]
      rwa [he] at hexact
    · simp only [hf]
      exact ⟨hexact.tidy.withSnapshot id, fun ns d =>
        (DeltaMap.files_withSnapshot id).trans (hexact.files_iff ns d)⟩

theorem deltas_of_no_listeners {r : Registry} (h : r.objects.Settled) (w : Write)
    (hn : (w.perform r).objects.nextId ≤ UInt32.size) (hl : r.listeners = []) :
    w.deltas r = .empty := by
  have hleaves := w.leaves_perform r
  unfold deltas
  cases ht : w.transaction? r with
  | none => rfl
  | some t =>
    rw [ht] at hleaves
    rw [hleaves.1] at hn
    have he := (exact_transaction? h ht hn).1 hl
    rcases finish_deltas t.tracker r.dispatcher.snapshots with ⟨-, hf⟩ | ⟨hne, -⟩
    · exact hf
    · exact absurd he hne

end Write

theorem Dispatcher.hasWorker_of_refusal {d : Dispatcher} {error : String}
    (h : d.refusal? = some error) : d.hasWorker = false := by
  rw [refusal?] at h
  split at h
  · cases h
  · exact Bool.eq_false_iff.2 ‹_›

/-- An event that finds a worker waits behind the others; one that finds none takes the queue with
it. -/
theorem Dispatcher.schedule_running {d : Dispatcher} (hd : d.stopped = false)
    (event : QueuedEvent) :
    ∃ snapshots, d.schedule event = { d with
      queue := if d.refusal?.isSome then [] else d.queue ++ [event]
      hasWorker := d.refusal?.isNone
      snapshots } := by
  have hrefusal : { d with queue := d.queue ++ [event] }.refusal? = d.refusal? := rfl
  rw [schedule, if_neg (by simp [hd]), ensureWorker, hrefusal]
  cases hr : d.refusal? with
  | none => exact ⟨d.snapshots, rfl⟩
  | some error =>
    exact ⟨_, by rw [Option.isNone_some, ← hasWorker_of_refusal hr]; rfl⟩

namespace Write

theorem dispatcher_perform {r : Registry} (hd : r.dispatcher.stopped = false) (w : Write) :
    ∃ snapshots, (w.perform r).dispatcher =
      if (w.deltas r).isEmpty || r.listeners.isEmpty then { r.dispatcher with snapshots }
      else { r.dispatcher with
        queue := if r.dispatcher.refusal?.isSome then []
          else r.dispatcher.queue ++ [{ listeners := r.listeners, deltas := w.deltas r }]
        hasWorker := r.dispatcher.refusal?.isNone
        snapshots } := by
  have hleaves := w.leaves_perform r
  unfold deltas
  cases ht : w.transaction? r with
  | none =>
    rw [ht] at hleaves
    rw [hleaves.2]
    exact ⟨r.dispatcher.snapshots, rfl⟩
  | some t =>
    rw [ht] at hleaves
    simp only
    rw [hleaves.2, Registry.dispatcher_fire]
    cases (t.tracker.finish r.dispatcher.snapshots).1.isEmpty with
    | true => exact ⟨_, rfl⟩
    | false =>
      cases r.listeners.isEmpty with
      | true => exact ⟨_, rfl⟩
      | false =>
        have hrunning : { r.dispatcher with
            snapshots := (t.tracker.finish r.dispatcher.snapshots).2.1 }.stopped = false := hd
        exact Dispatcher.schedule_running hrunning _

/-- The delta map of a write is what its event carries, and there is no event for an empty one. An
event that finds no worker is dropped with all that waits. -/
theorem queue_perform {r : Registry} {w : Write} (hd : r.dispatcher.stopped = false)
    (hl : r.listeners = [] → w.deltas r = .empty) :
    (w.perform r).dispatcher.queue =
      if (w.deltas r).isEmpty then r.dispatcher.queue
      else if r.dispatcher.refusal?.isSome then []
      else r.dispatcher.queue ++ [{ listeners := r.listeners, deltas := w.deltas r }] := by
  obtain ⟨snapshots, hdispatcher⟩ := w.dispatcher_perform hd
  rw [hdispatcher]
  cases hm : (w.deltas r).isEmpty with
  | true => rfl
  | false =>
    cases hnone : r.listeners.isEmpty with
    | true =>
      rw [hl (List.isEmpty_iff.1 hnone)] at hm
      cases hm
    | false => rfl

end Write

end PluginRegistry
