import Mathlib.Data.List.DropRight
import PluginRegistry.Proofs.Captures
import PluginRegistry.Proofs.Deliveries

/-!
# What a tracker hands out

A tracker may be called in any order, also in one that no write makes. Whatever was called, it
keeps the calls of its last span and nothing else: those since it was last started or finished. It
`Follows` that span call by call, and the map it hands out in the end is the map of the span
(`DeltaTracker.Session.grouped_performAll`).
-/

namespace PluginRegistry

theorem eraseDups_concat (l : List String) (a : String) :
    (l ++ [a]).eraseDups = if a ∈ l.eraseDups then l.eraseDups else l.eraseDups ++ [a] := by
  rw [List.eraseDups_append]
  by_cases h : a ∈ l
  · simp [h, List.removeAll, List.mem_eraseDups]
  · simp [h, List.removeAll, List.mem_eraseDups, List.eraseDups_cons]

theorem DeltaMap.entries_touch {m : DeltaMap} {touched : List String} {f : String → NamespaceDelta}
    (hf : ∀ ns, (f ns).ns = ns) (hm : m.entries = touched.eraseDups.map f) {ns : String}
    (hns : ns ∉ touched.eraseDups → f ns = { ns }) :
    (m.touch ns).entries = (touched ++ [ns]).eraseDups.map f := by
  have hnamespaces : m.namespaces = touched.eraseDups := by
    simp [namespaces, hm, Function.comp_def, hf]
  rw [eraseDups_concat, touch]
  by_cases h : ns ∈ touched.eraseDups
  · rw [if_pos (contains_iff.2 (hnamespaces ▸ h)), if_pos h, hm]
  · rw [if_neg fun hc => h (hnamespaces ▸ contains_iff.1 hc), if_neg h]
    simp [hm, hns h]

namespace DeltaTracker

/-! ## Calls -/

/-- A call to a tracker, or to a snapshot that one handed out. -/
inductive Call
  | start (recording : Bool)
  | record (ns : String) (delta : ExtensionDelta)
  | capture (object : RegistryObject)
  | entry (ns : String)
  | finish
  | close (id : SnapshotId)

namespace Call

def opens : Call → Bool
  | .start _ | .finish => true
  | _ => false

def records : Call → Bool
  | .start recording => recording
  | _ => false

/-- The namespace that a call touches. -/
def touched? (recording : Bool) : Call → Option String
  | .record ns _ => if recording then some ns else none
  | .entry ns => some ns
  | _ => none

/-- The change that a call records under a namespace. -/
def recorded? (ns : String) : Call → Option ExtensionDelta
  | .record ns' delta => if ns = ns' then some delta else none
  | _ => none

def closes (id : SnapshotId) : Call → Bool
  | .close id' => id = id'
  | _ => false

/-- The object that a call captures. -/
def captured? : Call → Option RegistryObject
  | .capture object => some object
  | _ => none

end Call

/-- A tracker in use, and the snapshots. -/
structure Session where
  tracker : DeltaTracker := {}
  snapshots : Snapshots := .empty

namespace Session

def perform (s : Session) : Call → Session
  | .start recording => { s with tracker := .start recording }
  | .record ns delta => { s with tracker := s.tracker.record ns delta }
  | .capture object => { s with tracker := s.tracker.capture object }
  | .entry ns => { s with tracker := (s.tracker.entry ns).2 }
  | .finish =>
    let (_, snapshots, tracker) := s.tracker.finish s.snapshots
    { tracker, snapshots }
  | .close id => { s with snapshots := s.snapshots.close id }

def performAll (s : Session) (calls : List Call) : Session := calls.foldl perform s

def finished (s : Session) : DeltaMap := (s.tracker.finish s.snapshots).1

@[simp] theorem performAll_concat (s : Session) (calls : List Call) (call : Call) :
    s.performAll (calls ++ [call]) = (s.performAll calls).perform call := by
  simp [performAll]

end Session

/-! ## Spans -/

/-- Calls from one start or finish to the next. -/
structure Span where
  recording : Bool
  calls : List Call

namespace Span

/-- What was called last, since the tracker was started or finished. -/
def last (calls : List Call) : Span where
  recording := (calls.reverse.find? Call.opens).any Call.records
  calls := calls.rtakeWhile fun call => !call.opens

def namespaces (span : Span) : List String :=
  (span.calls.filterMap (Call.touched? span.recording)).eraseDups

/-- The changes that were recorded under a namespace. -/
def deltasIn (span : Span) (ns : String) : List ExtensionDelta :=
  if span.recording then span.calls.filterMap (Call.recorded? ns) else []

def captures (span : Span) : List RegistryObject :=
  if span.recording then span.calls.filterMap Call.captured? else []

/-- The last object that was captured under an id. -/
def captured? (span : Span) (id : ObjectId) : Option RegistryObject :=
  span.captures.reverse.find? (·.id = id)

def entries (span : Span) : List NamespaceDelta :=
  span.namespaces.map fun ns => { ns, deltas := span.deltasIn ns }

/-- The map of a span, with all its entries on one snapshot. -/
def map (span : Span) (id : SnapshotId) : DeltaMap :=
  ⟨span.namespaces.map fun ns => { ns, deltas := span.deltasIn ns, snapshot := some id }⟩

/-- Asks for the objects that were captured, and for others `fallback`. -/
def answer (span : Span) (fallback : Resolver) : Resolver :=
  fun id kind =>
    match span.captured? id with
    | some found => if found.kind = kind then .ok found else .error (.notFound id kind)
    | none => fallback id kind

def push (span : Span) (call : Call) : Span := { span with calls := span.calls ++ [call] }

variable {span : Span} {call : Call}

theorem last_concat (calls : List Call) (hc : call.opens = false) :
    last (calls ++ [call]) = (last calls).push call := by
  simp [last, push, hc]

theorem last_concat_of_opens (calls : List Call) (hc : call.opens = true) :
    last (calls ++ [call]) = ⟨call.records, []⟩ := by
  simp [last, hc]

theorem namespaces_push (span : Span) (call : Call) :
    (span.push call).namespaces =
      (span.calls.filterMap (Call.touched? span.recording) ++
        (call.touched? span.recording).toList).eraseDups := by
  cases h : call.touched? span.recording <;> simp [namespaces, push, h]

theorem deltasIn_push (span : Span) (call : Call) (ns : String) :
    (span.push call).deltasIn ns =
      span.deltasIn ns ++ if span.recording then (call.recorded? ns).toList else [] := by
  cases hr : span.recording <;> cases h : call.recorded? ns <;> simp [deltasIn, push, hr, h]

theorem captures_push (span : Span) (call : Call) :
    (span.push call).captures =
      span.captures ++ if span.recording then call.captured?.toList else [] := by
  cases hr : span.recording <;> cases h : call.captured? <;> simp [captures, push, hr, h]

theorem deltasIn_eq_nil {ns : String} (h : ns ∉ span.namespaces) : span.deltasIn ns = [] := by
  unfold deltasIn
  split
  · rename_i hr
    simp only [namespaces, List.mem_eraseDups, List.mem_filterMap, not_exists, not_and] at h
    refine List.filterMap_eq_nil_iff.2 fun call hcall => ?_
    have htouched := h call hcall
    cases call with
    | record ns' delta =>
      have hne : ns ≠ ns' := fun e => htouched (by simp [Call.touched?, hr, e])
      simp [Call.recorded?, hne]
    | _ => rfl
  · rfl

theorem entries_push (h : call.touched? span.recording = none) :
    (span.push call).entries = span.entries := by
  have hdeltas : ∀ ns, (span.push call).deltasIn ns = span.deltasIn ns := by
    intro ns
    rw [deltasIn_push]
    cases hr : span.recording with
    | false => simp
    | true => cases call <;> simp_all [Call.touched?, Call.recorded?]
  simp only [entries, hdeltas, namespaces_push, h]
  simp [namespaces]

theorem captured?_push (h : call.captured? = none) (id : ObjectId) :
    (span.push call).captured? id = span.captured? id := by
  simp [captured?, captures_push, h]

end Span

/-! ## Following a span -/

/-- A tracker that knows of a span, and of nothing else. -/
structure Follows (t : DeltaTracker) (span : Span) : Prop where
  recording_eq : t.recording = span.recording
  entries_eq : t.deltas.entries = span.entries
  captured_eq : ∀ id : ObjectId, t.captured[id]? = span.captured? id

variable {t : DeltaTracker} {span : Span}

theorem follows_start (recording : Bool) : (start recording).Follows ⟨recording, []⟩ where
  recording_eq := rfl
  entries_eq := by simp [start, DeltaMap.empty, Span.entries, Span.namespaces]
  captured_eq id := by simp [start, Span.captured?, Span.captures]

theorem Follows.entries_touch (h : t.Follows span) (ns : String) :
    (t.deltas.touch ns).entries =
      (span.calls.filterMap (Call.touched? span.recording) ++ [ns]).eraseDups.map
        fun ns => { ns, deltas := span.deltasIn ns } :=
  DeltaMap.entries_touch (fun _ => rfl) h.entries_eq fun hns => by rw [Span.deltasIn_eq_nil hns]

theorem Follows.entry (h : t.Follows span) (ns : String) :
    (t.entry ns).2.Follows (span.push (.entry ns)) where
  recording_eq := h.recording_eq
  entries_eq := by
    rw [Span.entries, Span.namespaces_push]
    refine (h.entries_touch ns).trans (List.map_congr_left fun ns' _ => ?_)
    simp [Span.deltasIn_push, Call.recorded?]
  captured_eq id := (h.captured_eq id).trans (Span.captured?_push rfl id).symm

theorem Follows.capture (h : t.Follows span) (object : RegistryObject) :
    (t.capture object).Follows (span.push (.capture object)) where
  recording_eq := (recording_capture t object).trans h.recording_eq
  entries_eq := by rw [deltas_capture, h.entries_eq, Span.entries_push rfl]
  captured_eq id := by
    cases hr : span.recording with
    | false =>
      simp [DeltaTracker.capture, h.recording_eq, hr, h.captured_eq, Span.captured?,
        Span.captures_push]
    | true =>
      rw [captured_capture (h.recording_eq.trans hr), h.captured_eq]
      by_cases hid : object.id = id <;>
        simp [Span.captured?, Span.captures_push, hr, Call.captured?, hid]

theorem Follows.record (h : t.Follows span) (ns : String) (delta : ExtensionDelta) :
    (t.record ns delta).Follows (span.push (.record ns delta)) where
  recording_eq := by
    unfold DeltaTracker.record
    split <;> exact h.recording_eq
  entries_eq := by
    cases hr : span.recording with
    | false =>
      rw [DeltaTracker.record, if_neg (by simp [h.recording_eq, hr]), h.entries_eq,
        Span.entries_push (by simp [Call.touched?, hr])]
    | true =>
      rw [DeltaTracker.record, if_pos (h.recording_eq.trans hr), DeltaMap.entries_push,
        h.entries_touch, List.map_map, Span.entries, Span.namespaces_push, hr]
      -- the entry that grows is the one of the namespace that is recorded under
      refine List.map_congr_left fun ns' _ => ?_
      by_cases hns : ns' = ns <;>
        simp [DeltaMap.grow, Span.deltasIn_push, hr, Call.recorded?, hns]
  captured_eq id := by rw [captured_record, h.captured_eq, Span.captured?_push rfl]

theorem Follows.close (h : t.Follows span) (id : SnapshotId) :
    t.Follows (span.push (.close id)) where
  recording_eq := h.recording_eq
  entries_eq := h.entries_eq.trans (Span.entries_push rfl).symm
  captured_eq x := (h.captured_eq x).trans (Span.captured?_push rfl x).symm

theorem Follows.resolver_eq (h : t.Follows span) {s : Snapshots} {id : SnapshotId}
    (hid : s.captured? id = some t.captured) (look : Resolver) (object : ObjectId)
    (kind : ObjectKind) : s.resolver id look object kind = span.answer look object kind := by
  cases hobject : span.captured? object with
  | none => simp [Snapshots.resolver, Span.answer, hid, h.captured_eq, hobject]
  | some found => simp [Snapshots.resolver, Span.answer, hid, h.captured_eq, hobject]

namespace Session

variable {s : Session}

@[simp] theorem tracker_finish (s : Session) : (s.perform .finish).tracker = .start false := by
  unfold perform finish
  dsimp only
  split <;> rfl

/-- However it is called, a tracker knows of its last span. -/
theorem follows_performAll (snapshots : Snapshots) (calls : List Call) :
    (performAll { snapshots } calls).tracker.Follows (.last calls) := by
  induction calls using List.reverseRecOn with
  | nil => exact follows_start false
  | append_singleton calls call ih =>
    rw [performAll_concat]
    cases hopens : call.opens with
    | true =>
      rw [Span.last_concat_of_opens _ hopens]
      cases call with
      | start recording => exact follows_start recording
      | finish =>
        rw [tracker_finish]
        exact follows_start false
      | _ => cases hopens
    | false =>
      rw [Span.last_concat _ hopens]
      cases call with
      | record ns delta => exact ih.record ns delta
      | capture object => exact ih.capture object
      | entry ns => exact ih.entry ns
      | close id => exact ih.close id
      | _ => cases hopens

/-! ## Handing out a map -/

theorem finished_eq (h : s.tracker.Follows span) :
    s.finished = span.map ⟨s.snapshots.tables.size⟩ := by
  unfold finished finish
  split
  · rename_i hempty
    have hnone : span.namespaces = [] := by
      simpa [DeltaMap.isEmpty, h.entries_eq, Span.entries] using hempty
    simp [Span.map, hnone, DeltaMap.empty]
  · simp [DeltaMap.withSnapshot, Span.map, h.entries_eq, Span.entries, Snapshots.add,
      Function.comp_def]

theorem captured?_finish (h : s.tracker.Follows span) (hne : span.namespaces ≠ []) :
    (s.perform .finish).snapshots.captured? ⟨s.snapshots.tables.size⟩ =
      some s.tracker.captured := by
  have hentries : s.tracker.deltas.isEmpty = false := by
    simp [DeltaMap.isEmpty, h.entries_eq, Span.entries, hne]
  simp [perform, finish, hentries, Snapshots.captured?_add]

theorem persists_perform (s : Session) (call : Call) :
    s.snapshots.Persists (s.perform call).snapshots := by
  cases call with
  | finish => exact .finish s.tracker s.snapshots
  | close id => exact .close s.snapshots id
  | _ => exact .refl _

theorem captured?_perform {id : SnapshotId} (hid : id.index < s.snapshots.tables.size)
    (call : Call) :
    (s.perform call).snapshots.captured? id =
      if call.closes id then none else s.snapshots.captured? id := by
  cases call with
  | close other => simp [perform, Snapshots.captured?_close, Call.closes]
  | finish =>
    unfold perform finish
    dsimp only
    split
    · rfl
    · exact (Snapshots.captured?_add _ _ _).trans (if_neg hid.ne)
  | _ => rfl

theorem captured?_performAll {id : SnapshotId} (hid : id.index < s.snapshots.tables.size)
    (calls : List Call) :
    (s.performAll calls).snapshots.captured? id =
      if calls.any (Call.closes id) then none else s.snapshots.captured? id := by
  induction calls generalizing s with
  | nil => rfl
  | cons call calls ih =>
    have hlater := ih (hid.trans_le (s.persists_perform call).size_le)
    rw [performAll, List.foldl_cons, ← performAll, hlater, captured?_perform hid, List.any_cons]
    cases call.closes id <;> simp

theorem tracker_performAll (s s' : Session) {call : Call} (hc : call.opens = true)
    (calls : List Call) :
    (s.performAll (call :: calls)).tracker = (s'.performAll (call :: calls)).tracker := by
  induction calls using List.reverseRecOn with
  | nil =>
    cases call with
    | start recording => rfl
    | finish => exact s.tracker_finish.trans s'.tracker_finish.symm
    | _ => cases hc
  | append_singleton calls later ih =>
    rw [← List.cons_append, performAll_concat, performAll_concat]
    generalize s.performAll (call :: calls) = a at ih ⊢
    generalize s'.performAll (call :: calls) = b at ih ⊢
    cases later with
    | finish => exact a.tracker_finish.trans b.tracker_finish.symm
    | _ => simp [perform, ih]

/-- What finishing a tracker does after these calls, when the new snapshot has the number `id`. -/
structure Grouped (s : Session) (calls : List Call) (id : SnapshotId) : Prop where
  /-- No snapshot had the number so far. -/
  fresh : id.index = (s.performAll calls).snapshots.tables.size
  /-- The map is the one of the last span. -/
  finished_eq : (s.performAll calls).finished = (Span.last calls).map id
  /-- The tracker is empty and records no more. -/
  stopped : (s.performAll (calls ++ [.finish])).tracker = .start false
  /-- If there is an entry, the snapshot answers for the span until it is closed. -/
  answers : (Span.last calls).namespaces ≠ [] →
    ∀ (later : List Call) (look : Resolver) (object : ObjectId) (kind : ObjectKind),
      (s.performAll (calls ++ .finish :: later)).snapshots.resolver id look object kind =
        if later.any (Call.closes id) then .error .deltaClosed
        else (Span.last calls).answer look object kind
  /-- Only the calls from the last start or finish on count. -/
  forgets : ∀ {before after : List Call} {call : Call}, calls = before ++ call :: after →
    call.opens = true →
      (s.performAll calls).tracker = (s.performAll (call :: after)).tracker

/-- Whatever is called in whatever order, each finish hands out the map of the last span. -/
theorem grouped_performAll (snapshots : Snapshots) (calls : List Call) :
    ∃ id, Grouped { snapshots } calls id := by
  have hfollows := follows_performAll snapshots calls
  refine ⟨⟨(performAll { snapshots } calls).snapshots.tables.size⟩, rfl, finished_eq hfollows,
    by simp, ?_, ?_⟩
  · intro hne later look object kind
    have hcaptured := captured?_finish hfollows hne
    have hlt := Snapshots.index_lt_of_captured? hcaptured
    have hlater := captured?_performAll hlt later
    rw [hcaptured] at hlater
    rw [performAll, List.foldl_append, List.foldl_cons, ← performAll, ← performAll]
    split
    · rename_i hclosed
      rw [if_pos hclosed] at hlater
      rw [Snapshots.resolver, hlater]
    · rename_i hopen
      rw [if_neg hopen] at hlater
      exact hfollows.resolver_eq hlater look object kind
  · rintro before after call rfl hopens
    rw [performAll, List.foldl_append, ← performAll, ← performAll]
    exact tracker_performAll _ _ hopens after

def sampleElement (name : String) : RegistryObject :=
  .element
    { id := .ofIndex 7, name, properties := [], value := none, parent := .ofIndex 3
      parentKind := .extension, owner := ⟨1⟩, contributor := ⟨1⟩, children := [] }

def sampleDelta : ExtensionDelta := ⟨.ofIndex 3, .ofIndex 1, .added⟩

/-- A tracker is started twice, and an entry is asked for before anything is recorded in it. -/
def sampleCalls : List Call :=
  [.start true, .record "old" sampleDelta, .capture (sampleElement "old"), .start true,
    .capture (sampleElement "first"), .entry "ui", .record "core" sampleDelta,
    .capture (sampleElement "last")]

theorem grouped_sampleCalls :
    (performAll {} sampleCalls).finished =
      ⟨[⟨"ui", [], some ⟨0⟩⟩, ⟨"core", [sampleDelta], some ⟨0⟩⟩]⟩ ∧
    ∀ look : Resolver,
      (performAll {} (sampleCalls ++ [.finish])).snapshots.resolver ⟨0⟩ look (.ofIndex 7) .element =
        .ok (sampleElement "last") ∧
      (performAll {} (sampleCalls ++ [.finish, .close ⟨0⟩])).snapshots.resolver ⟨0⟩ look
        (.ofIndex 7) .element = .error .deltaClosed := by
  obtain ⟨id, h⟩ := grouped_performAll .empty sampleCalls
  have hid : id = ⟨0⟩ := congrArg SnapshotId.mk h.fresh
  subst hid
  refine ⟨h.finished_eq.trans rfl, fun look => ⟨?_, ?_⟩⟩
  · exact (h.answers (by decide) [] look (.ofIndex 7) .element).trans rfl
  · exact (h.answers (by decide) [.close ⟨0⟩] look (.ofIndex 7) .element).trans rfl

end Session

end DeltaTracker

end PluginRegistry
