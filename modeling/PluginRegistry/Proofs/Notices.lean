import PluginRegistry.Proofs.Deliveries
import PluginRegistry.Proofs.Lives
import PluginRegistry.Proofs.Refusals

/-!
# What listeners are told

While a registry is used, a list of `Happening`s is kept: which listener came or went, what was
written, who was called with what. From this list alone follows what a listener is due, which is
the changes of every write that began while it was registered, as far as they concern it.
`Registry.Recorded` says how the list belongs to the registry. Then what a listener was called with
and what the dispatcher still has for it (`Dispatcher.awaited`) is together what it is due, in that
order, until the registry is stopped (`Registry.Tallies`).

There is one exception: changes for which no worker could be started are dropped at once. They are
due and not sent, and nothing else is lost.
-/

namespace PluginRegistry

/-! ## What happens -/

/-- Whether the changes concern somebody who asked for one namespace, or for all of them. -/
def DeltaMap.concerns (m : DeltaMap) : Option String → Bool
  | none => true
  | some ns => decide (ns ∈ m.namespaces)

theorem ListenerInfo.accepts_eq (info : ListenerInfo) (m : DeltaMap) :
    info.accepts m = m.concerns info.filter := by
  unfold accepts DeltaMap.concerns
  cases info.filter with
  | none => rfl
  | some ns => exact Bool.eq_iff_iff.2 (DeltaMap.contains_iff.trans decide_eq_true_iff.symm)

/-- What listeners are concerned with. -/
inductive Happening
  | added (l : Listener) (filter : Option String)
  | removed (l : Listener)
  | wrote (m : DeltaMap)
  /-- A write for whose changes there was no worker, and none could be started. -/
  | lost (m : DeltaMap)
  | called (l : Listener) (event : ChangeEvent)

namespace Happening

/-- The filter that is in force for a listener if it is registered, after some happenings of which
the latest comes first. -/
def filter? (l : Listener) : List Happening → Option (Option String)
  | [] => none
  | .added l' filter :: past =>
    if l' = l then (filter? l past).orElse fun _ => some filter else filter? l past
  | .removed l' :: past => if l' = l then none else filter? l past
  | .wrote _ :: past => filter? l past
  | .lost _ :: past => filter? l past
  | .called _ _ :: past => filter? l past

/-- The entry of a listener in the list of those registered, if it has one. -/
def standing (l : Listener) (past : List Happening) : List ListenerInfo :=
  (filter? l past).toList.map fun filter => { listener := l, filter }

/-- What a listener is told of a write, if it is registered with some filter when that begins. -/
def notice (m : DeltaMap) : Option (Option String) → List ChangeEvent
  | none => []
  | some filter => if !m.isEmpty && m.concerns filter then [{ deltas := m, filter }] else []

/-- What a listener is to be called with. -/
def due (l : Listener) : List Happening → List ChangeEvent
  | [] => []
  | .wrote m :: past => due l past ++ notice m (filter? l past)
  | .lost m :: past => due l past ++ notice m (filter? l past)
  | .added _ _ :: past => due l past
  | .removed _ :: past => due l past
  | .called _ _ :: past => due l past

/-- What a listener is to be called with, without what was lost. -/
def sent (l : Listener) : List Happening → List ChangeEvent
  | [] => []
  | .wrote m :: past => sent l past ++ notice m (filter? l past)
  | .lost _ :: past => sent l past
  | .added _ _ :: past => sent l past
  | .removed _ :: past => sent l past
  | .called _ _ :: past => sent l past

/-- What a listener was called with. -/
def received (l : Listener) : List Happening → List ChangeEvent
  | [] => []
  | .called l' event :: past => received l past ++ if l' = l then [event] else []
  | .added _ _ :: past => received l past
  | .removed _ :: past => received l past
  | .wrote _ :: past => received l past
  | .lost _ :: past => received l past

/-- The changes of the writes that changed something. -/
def written : List Happening → List DeltaMap
  | [] => []
  | .wrote m :: past => written past ++ if m.isEmpty then [] else [m]
  | .lost m :: past => written past ++ if m.isEmpty then [] else [m]
  | .added _ _ :: past => written past
  | .removed _ :: past => written past
  | .called _ _ :: past => written past

section

variable {l : Listener} {past : List Happening}

theorem standing_of_none (h : filter? l past = none) : standing l past = [] := by
  rw [standing, h]
  rfl

theorem standing_of_some {filter : Option String} (h : filter? l past = some filter) :
    standing l past = [{ listener := l, filter }] := by
  rw [standing, h]
  rfl

/-- Whoever is added again keeps the filter of the first time. -/
theorem standing_added (l' : Listener) (filter : Option String) :
    standing l (.added l' filter :: past) =
      standing l past ++
        if l' = l ∧ filter? l past = none then [{ listener := l', filter }] else [] := by
  have hfilter : filter? l (.added l' filter :: past) = if l' = l then
      (filter? l past).orElse fun _ => some filter else filter? l past := rfl
  rw [standing, standing, hfilter]
  by_cases hl : l' = l <;> cases filter? l past <;> simp [hl]

theorem standing_removed (l' : Listener) :
    standing l (.removed l' :: past) = if l' = l then [] else standing l past := by
  have hfilter : filter? l (.removed l' :: past) = if l' = l then none else filter? l past := rfl
  rw [standing, standing, hfilter]
  by_cases hl : l' = l <;> simp [hl]

end

end Happening

/-! ## What the dispatcher has for a listener -/

/-- The calls of a listener that an event leads to. -/
def QueuedEvent.noticesFor (l : Listener) (e : QueuedEvent) : List ChangeEvent :=
  (e.audience.filter (·.listener = l)).map fun info => { deltas := e.deltas, filter := info.filter }

/-- The calls of a listener that are left. -/
def Delivery.noticesFor (l : Listener) (d : Delivery) : List ChangeEvent :=
  (d.remaining.filter (·.listener = l)).map d.eventFor

namespace Dispatcher

variable {d d' : Dispatcher} {l : Listener}

/-- The calls of a listener that are still to come, those in flight first. -/
def awaited (l : Listener) (d : Dispatcher) : List ChangeEvent :=
  d.inFlight.toList.flatMap (·.noticesFor l) ++ d.queue.flatMap (·.noticesFor l)

theorem awaited_take (h : d.take? = some d') (l : Listener) : d'.awaited l = d.awaited l := by
  obtain ⟨hfree, -, event, queue, hqueue, rfl⟩ := take?_eq_some h
  have hstart : (Delivery.start event.listeners event.deltas).noticesFor l =
      event.noticesFor l := rfl
  simp [awaited, hfree, hqueue, hstart]

theorem awaited_finish {delivery : Delivery} (h : d.finish? = some (delivery, d')) (l : Listener) :
    d'.awaited l = d.awaited l := by
  obtain ⟨hflight, hdone, rfl⟩ := finish?_eq_some h
  simp [awaited, hflight, Delivery.noticesFor, hdone]

theorem awaited_report {info : ListenerInfo} {event : ChangeEvent}
    (h : d.call? = some (info, event)) (result : CallResult) (l : Listener) :
    d.awaited l = (if info.listener = l then [event] else []) ++ (d.report result).awaited l := by
  obtain ⟨delivery, hflight, hcall⟩ := Option.bind_eq_some_iff.1 h
  obtain ⟨info', hnext, hevent⟩ := Option.bind_eq_some_iff.1 hcall
  cases hevent
  obtain ⟨remaining, hremaining⟩ : ∃ remaining, delivery.remaining = info :: remaining :=
    List.head?_eq_some_iff.1 hnext
  have hreport : (delivery.report result).remaining = remaining ∧
      (delivery.report result).deltas = delivery.deltas := by
    unfold Delivery.report
    rw [hremaining]
    dsimp only
    split <;> exact ⟨rfl, rfl⟩
  have hnotices : delivery.noticesFor l =
      (if info.listener = l then [delivery.eventFor info] else []) ++
        (delivery.report result).noticesFor l := by
    unfold Delivery.noticesFor Delivery.eventFor
    rw [hremaining, hreport.1, hreport.2]
    by_cases hl : info.listener = l <;> simp [hl]
  simp only [awaited, report, hflight, Option.map_some, Option.toList_some, List.flatMap_cons,
    List.flatMap_nil, List.append_nil, hnotices, List.append_assoc]

end Dispatcher

/-! ## The snapshots of a write -/

namespace Write

variable {r : Registry}

theorem snapshotIds_deltas {w : Write} (h : (w.deltas r).isEmpty = false) :
    (w.deltas r).snapshotIds ≠ [] ∧
      ∀ id ∈ (w.deltas r).snapshotIds, id.index = r.dispatcher.snapshots.tables.size ∧
        id.index < (w.perform r).dispatcher.snapshots.tables.size := by
  cases ht : w.transaction? r with
  | none =>
    rw [deltas, ht] at h
    cases h
  | some t =>
    have hdeltas : w.deltas r = (t.tracker.finish r.dispatcher.snapshots).1 := by rw [deltas, ht]
    have hsize := (Registry.persists_perform ht).size_le
    rw [hdeltas] at h ⊢
    refine ⟨fun hnil => ?_, fun id hid => ?_⟩
    · unfold DeltaTracker.finish at h hnil
      split at h
      · cases h
      · rename_i hchanged
        rw [if_neg hchanged, DeltaMap.snapshotIds_withSnapshot, List.replicate_eq_nil_iff] at hnil
        exact hchanged (List.isEmpty_iff.2 (List.length_eq_zero_iff.1 hnil))
    · exact ⟨DeltaTracker.index_of_mem_finish hid,
        ((DeltaTracker.finish_own t.tracker _).1.index_lt hid).trans_le hsize⟩

end Write

/-! ## A registry and what happened to it -/

namespace Registry

def calling (r : Registry) : List Happening :=
  r.dispatcher.call?.toList.map fun (info, event) => .called info.listener event

/-- What a write adds to what happened: if it has changes, they are lost unless there is a worker
for them. -/
def writing (r : Registry) (w : Write) : Happening :=
  if r.dispatcher.refusal?.isSome then .lost (w.deltas r) else .wrote (w.deltas r)

/-- A registry from its start on, with what has happened to it. Calls of its operations, one after
the other, and steps of the worker are mixed in any way, and whether the
system starts a worker may change at any time. The last two belong to a stop: before it ends the
registry refuses writes already. -/
inductive Recorded : List Happening → Registry → Prop
  | start (digest : DigestFunction) (files : FileSystem) (settings : Settings)
      (strategy : Strategy) (token : Option AccessToken) :
    Recorded (if settings.debugEvents then [.added .eventLog none] else [])
      (start digest files settings strategy token)
  | opened {past r} (h : Recorded past r) : Recorded past r.opened
  | host {past r} (h : Recorded past r) (strategy : Strategy) : Recorded past { r with strategy }
  | workers {past r} (h : Recorded past r) (startError : Option String) :
    Recorded past { r with dispatcher := { r.dispatcher with startError } }
  | write {past r} (h : Recorded past r) (w : Write) :
    Recorded (r.writing w :: past) (w.perform r)
  | addListener {past r} (h : Recorded past r) (l : Listener) (filter : Option String) :
    Recorded (.added l filter :: past) (r.addListener l filter)
  | removeListener {past r} (h : Recorded past r) (l : Listener) :
    Recorded (.removed l :: past) (r.removeListener l)
  | step {past r r'} (h : Recorded past r) (hstep : r.step? = some r') :
    Recorded (r.calling ++ past) r'
  | reportCall {past r} (h : Recorded past r) (result : CallResult) :
    Recorded (r.calling ++ past) (r.reportCall result)
  | clearCache {past r} (h : Recorded past r) (chance : Cache.Chance) (files : FileSystem) :
    Recorded past (r.clearCache chance files).2.1
  | beginStop {past r} (h : Recorded past r) (token : Option AccessToken) :
    Recorded past (r.beginStop token).2
  | finishStop {past r} (h : Recorded past r) (hstopped : r.stopped = true)
      (digest : DigestFunction) (chance : Cache.Chance) (files : FileSystem) :
    Recorded past (r.finishStop digest chance files).1

open Happening (filter? standing notice due sent received written)

/-- Whoever was called, and what is still to come, agrees with what was sent. -/
structure Tallies (past : List Happening) (r : Registry) : Prop where
  listening : ∀ l, r.listeners.filter (·.listener = l) = standing l past
  stopped : r.dispatcher.stopped = true → r.stopped = true
  /-- Without a worker nothing waits. -/
  idle : r.dispatcher.hasWorker = false → r.dispatcher.queue = []
  exact : r.dispatcher.stopped = false →
    ∀ l, received l past ++ r.dispatcher.awaited l = sent l past
  bounded : ∀ l, received l past ++ r.dispatcher.awaited l <+: sent l past
  taken : ∀ m ∈ written past, m.snapshotIds ≠ [] ∧
    ∀ id ∈ m.snapshotIds, id.index < r.dispatcher.snapshots.tables.size
  nodup : (written past).Nodup

namespace Tallies

variable {past : List Happening} {r r' : Registry}

theorem silent (h : Tallies past r) (hlisteners : r'.listeners = r.listeners)
    (hstopped : r.stopped = true → r'.stopped = true)
    (hdispatcher : r'.dispatcher.stopped = r.dispatcher.stopped)
    (hidle : r'.dispatcher.hasWorker = false → r'.dispatcher.queue = [])
    (hawaited : ∀ l, r'.dispatcher.awaited l = r.dispatcher.awaited l)
    (hsize : r.dispatcher.snapshots.tables.size ≤ r'.dispatcher.snapshots.tables.size) :
    Tallies past r' where
  listening l := by rw [hlisteners, h.listening]
  stopped hd := hstopped (h.stopped (hdispatcher ▸ hd))
  idle := hidle
  exact hd l := by rw [hawaited, h.exact (hdispatcher ▸ hd)]
  bounded l := by
    rw [hawaited]
    exact h.bounded l
  taken m hm := ⟨(h.taken m hm).1, fun id hid => ((h.taken m hm).2 id hid).trans_le hsize⟩
  nodup := h.nodup

theorem any_listeners (h : Tallies past r) (l : Listener) :
    r.listeners.any (·.listener = l) = (filter? l past).isSome := by
  have hmem : ∀ info, info ∈ r.listeners ∧ info.listener = l ↔ info ∈ standing l past := by
    intro info
    rw [← h.listening l, List.mem_filter, decide_eq_true_iff]
  rw [Bool.eq_iff_iff, List.any_eq_true]
  simp only [decide_eq_true_iff, hmem]
  cases hf : filter? l past with
  | none => simp [Happening.standing_of_none hf]
  | some filter => simp [Happening.standing_of_some hf]

theorem addListener (h : Tallies past r) (l : Listener) (filter : Option String) :
    Tallies (.added l filter :: past) (r.addListener l filter) := by
  have hdispatcher : (r.addListener l filter).dispatcher = r.dispatcher ∧
      (r.addListener l filter).stopped = r.stopped := by
    unfold Registry.addListener
    split <;> exact ⟨rfl, rfl⟩
  refine { h with
    listening := fun k => ?_
    stopped := by rw [hdispatcher.1, hdispatcher.2]; exact h.stopped
    idle := by rw [hdispatcher.1]; exact h.idle
    exact := by rw [hdispatcher.1]; exact h.exact
    bounded := by rw [hdispatcher.1]; exact h.bounded
    taken := by rw [hdispatcher.1]; exact h.taken }
  rw [Happening.standing_added, ← h.listening k, Registry.addListener, h.any_listeners l]
  by_cases hl : l = k
  · subst hl
    cases filter? l past <;> simp
  · cases (filter? l past).isSome <;> simp [hl]

theorem start (digest : DigestFunction) (files : FileSystem) (settings : Settings)
    (strategy : Strategy) (token : Option AccessToken) :
    Tallies (if settings.debugEvents then [.added .eventLog none] else [])
      (start digest files settings strategy token) := by
  have hnew : ∀ {r : Registry}, r.listeners = [] → r.dispatcher = .empty → Tallies [] r := by
    intro r hlisteners hdispatcher
    exact
      { listening := fun _ => by rw [hlisteners]; rfl
        stopped := by rw [hdispatcher]; nofun
        idle := fun _ => by rw [hdispatcher]; rfl
        exact := fun _ _ => by rw [hdispatcher]; rfl
        bounded := fun _ => by rw [hdispatcher]; exact List.prefix_rfl
        taken := nofun
        nodup := .nil }
  unfold Registry.start
  generalize loadCache digest files settings strategy.namespaces.fingerprint = loaded
  obtain ⟨records, store⟩ := loaded
  cases settings.debugEvents with
  | false => exact hnew rfl rfl
  | true =>
    simp only [if_true]
    exact (hnew rfl rfl).addListener .eventLog none

theorem removeListener (h : Tallies past r) (l : Listener) :
    Tallies (.removed l :: past) (r.removeListener l) := by
  refine { h with listening := fun k => ?_ }
  rw [Happening.standing_removed, ← h.listening k, Registry.removeListener, List.filter_filter]
  by_cases hl : l = k
  · subst hl
    simp
  · rw [if_neg hl]
    refine List.filter_congr fun info _ => ?_
    by_cases hk : info.listener = k <;> simp [hk, Ne.symm hl]

/-- What a write sends to a listener is what the listener is due. -/
theorem noticesFor_eq (h : Tallies past r) (m : DeltaMap) (l : Listener) :
    (if m.isEmpty || r.listeners.isEmpty then []
      else [({ listeners := r.listeners, deltas := m } : QueuedEvent)]).flatMap (·.noticesFor l) =
      notice m (filter? l past) := by
  have hlistening := h.listening l
  have haudience : ({ listeners := r.listeners, deltas := m } : QueuedEvent).noticesFor l =
      ((standing l past).filter fun info => m.concerns info.filter).map
        fun info => { deltas := m, filter := info.filter } := by
    rw [QueuedEvent.noticesFor, QueuedEvent.audience, List.filter_comm, hlistening]
    simp only [ListenerInfo.accepts_eq]
  cases hf : filter? l past with
  | none =>
    rw [Happening.standing_of_none hf] at haudience
    split
    · rfl
    · rw [List.flatMap_singleton, haudience]
      rfl
  | some filter =>
    rw [Happening.standing_of_some hf] at haudience hlistening
    have hlisteners : r.listeners.isEmpty = false := by
      rw [List.isEmpty_eq_false_iff]
      intro hnil
      rw [hnil] at hlistening
      cases hlistening
    rw [hlisteners, Bool.or_false]
    cases hm : m.isEmpty with
    | true => simp [notice, hm]
    | false => cases hc : m.concerns filter <;> simp [haudience, notice, hm, hc]

theorem queue_of_refusal (h : Tallies past r) {error : String}
    (hr : r.dispatcher.refusal? = some error) : r.dispatcher.queue = [] :=
  h.idle (Dispatcher.hasWorker_of_refusal hr)

theorem awaited_perform (h : Tallies past r) (hd : r.dispatcher.stopped = false) (w : Write)
    (l : Listener) : (w.perform r).dispatcher.awaited l = r.dispatcher.awaited l ++
      if r.dispatcher.refusal?.isSome then [] else notice (w.deltas r) (filter? l past) := by
  obtain ⟨snapshots, hdispatcher⟩ := w.dispatcher_perform hd
  rw [hdispatcher, ← h.noticesFor_eq (w.deltas r) l]
  cases hr : r.dispatcher.refusal? with
  | none => split <;> simp [Dispatcher.awaited]
  | some error =>
    -- what is dropped with the event is nothing
    have hqueue := h.queue_of_refusal hr
    split <;> simp [Dispatcher.awaited, hqueue]

theorem idle_perform (h : Tallies past r) (hd : r.dispatcher.stopped = false) (w : Write)
    (hidle : (w.perform r).dispatcher.hasWorker = false) :
    (w.perform r).dispatcher.queue = [] := by
  obtain ⟨snapshots, hdispatcher⟩ := w.dispatcher_perform hd
  rw [hdispatcher] at hidle ⊢
  split at hidle
  · rw [if_pos ‹_›]
    exact h.idle hidle
  · rw [if_neg ‹_›]
    cases hr : r.dispatcher.refusal? with
    | none => simp [hr] at hidle
    | some error => rfl

theorem sent_writing (w : Write) (l : Listener) :
    sent l (r.writing w :: past) = sent l past ++
      if r.dispatcher.refusal?.isSome then [] else notice (w.deltas r) (filter? l past) := by
  unfold writing
  split
  · exact (List.append_nil _).symm
  · rfl

theorem received_writing (w : Write) (l : Listener) :
    received l (r.writing w :: past) = received l past := by
  unfold writing
  split <;> rfl

theorem written_writing (w : Write) : written (r.writing w :: past) =
    written past ++ if (w.deltas r).isEmpty then [] else [w.deltas r] := by
  unfold writing
  split <;> rfl

theorem standing_writing (w : Write) (l : Listener) :
    standing l (r.writing w :: past) = standing l past := by
  unfold writing
  split <;> rfl

/-- The maps of writes stay different from each other, as each is on a snapshot of its own. -/
theorem written_perform (h : Tallies past r) (w : Write) :
    (∀ m ∈ written (r.writing w :: past), m.snapshotIds ≠ [] ∧ ∀ id ∈ m.snapshotIds,
      id.index < (w.perform r).dispatcher.snapshots.tables.size) ∧
    (written (r.writing w :: past)).Nodup := by
  have hsize := (Turn.write r w).persists.size_le
  have htaken : ∀ m ∈ written past, m.snapshotIds ≠ [] ∧ ∀ id ∈ m.snapshotIds,
      id.index < (w.perform r).dispatcher.snapshots.tables.size := fun m hm =>
    ⟨(h.taken m hm).1, fun id hid => ((h.taken m hm).2 id hid).trans_le hsize⟩
  rw [written_writing]
  cases hm : (w.deltas r).isEmpty with
  | true =>
    rw [if_pos rfl, List.append_nil]
    exact ⟨htaken, h.nodup⟩
  | false =>
    rw [if_neg Bool.false_ne_true]
    obtain ⟨hsome, hnew⟩ := Write.snapshotIds_deltas hm
    refine ⟨fun m hmem => ?_, List.nodup_append.2
      ⟨h.nodup, List.nodup_singleton _, fun m hmem m' hm' heq => ?_⟩⟩
    · rcases List.mem_append.1 hmem with hold | hmem
      · exact htaken m hold
      · rw [List.mem_singleton.1 hmem]
        exact ⟨hsome, fun id hid => (hnew id hid).2⟩
    · -- the snapshot of the new map was not there when the earlier ones were made
      rw [List.mem_singleton.1 hm'] at heq
      subst heq
      obtain ⟨id, hid⟩ := List.exists_mem_of_ne_nil _ hsome
      exact ((h.taken _ hmem).2 id hid).ne (hnew id hid).1

theorem write (h : Tallies past r) (w : Write) : Tallies (r.writing w :: past) (w.perform r) := by
  have hkeeps := w.keeps_perform r
  obtain ⟨htaken, hnodup⟩ := h.written_perform w
  have hlistening : ∀ l, (w.perform r).listeners.filter (·.listener = l) =
      standing l (r.writing w :: past) := fun l => by
    rw [hkeeps.listeners_eq, standing_writing, h.listening]
  cases hstopped : r.stopped with
  | true =>
    have ht := Write.transaction?_of_stopped hstopped w
    have hempty : w.deltas r = .empty := by rw [Write.deltas, ht]
    have hleaves := w.leaves_perform r
    rw [ht] at hleaves
    have hsent : ∀ l, sent l (r.writing w :: past) = sent l past := fun l => by
      rw [sent_writing, hempty]
      cases filter? l past <;> simp [notice, DeltaMap.empty, DeltaMap.isEmpty]
    exact
      { listening := hlistening
        stopped := fun _ => hkeeps.stopped_eq.trans hstopped
        idle := by rw [hleaves.2]; exact h.idle
        exact := fun hd l => by
          rw [hleaves.2] at hd ⊢
          rw [received_writing, hsent, h.exact hd]
        bounded := fun l => by
          rw [hleaves.2, received_writing, hsent]
          exact h.bounded l
        taken := htaken
        nodup := hnodup }
  | false =>
    have hrunning : r.dispatcher.stopped = false := by
      rw [Bool.eq_false_iff]
      intro hd
      rw [h.stopped hd] at hstopped
      cases hstopped
    have hexact : ∀ l, received l (r.writing w :: past) ++ (w.perform r).dispatcher.awaited l =
        sent l (r.writing w :: past) := fun l => by
      rw [received_writing, h.awaited_perform hrunning, sent_writing, ← List.append_assoc,
        h.exact hrunning]
    have hstill : (w.perform r).dispatcher.stopped = false := by
      obtain ⟨snapshots, hdispatcher⟩ := w.dispatcher_perform hrunning
      rw [hdispatcher]
      split <;> exact hrunning
    exact
      { listening := hlistening
        stopped := fun hd => absurd hd (by simp [hstill])
        idle := h.idle_perform hrunning w
        exact := fun _ => hexact
        bounded := fun l => hexact l ▸ List.prefix_rfl
        taken := htaken
        nodup := hnodup }

theorem called (h : Tallies past r) {info : ListenerInfo} {event : ChangeEvent}
    (hcall : r.dispatcher.call? = some (info, event)) {result : CallResult}
    (hlisteners : r'.listeners = r.listeners) (hstopped : r'.stopped = r.stopped)
    (hdispatcher : r'.dispatcher = r.dispatcher.report result) :
    Tallies (.called info.listener event :: past) r' := by
  have hawaited := Dispatcher.awaited_report hcall result
  refine { h with
    listening := fun l => ?_
    stopped := fun hd => ?_
    idle := ?_
    exact := fun hd l => ?_
    bounded := fun l => ?_
    taken := ?_ }
  · rw [hlisteners]
    exact h.listening l
  · rw [hstopped]
    rw [hdispatcher] at hd
    exact h.stopped hd
  · rw [hdispatcher]
    exact h.idle
  · rw [hdispatcher] at hd ⊢
    rw [received, List.append_assoc, ← hawaited]
    exact h.exact hd l
  · rw [hdispatcher, received, List.append_assoc, ← hawaited]
    exact h.bounded l
  · rw [hdispatcher]
    exact h.taken

theorem reportCall (h : Tallies past r) (result : CallResult) :
    Tallies (r.calling ++ past) (r.reportCall result) := by
  unfold Registry.reportCall calling
  cases hcall : r.dispatcher.call? with
  | none => exact h
  | some call =>
    obtain ⟨info, event⟩ := call
    dsimp only
    split <;> exact h.called hcall rfl rfl rfl

theorem step (h : Tallies past r) (hstep : r.step? = some r') : Tallies (r.calling ++ past) r' := by
  have hsize := (persists_step hstep).size_le
  unfold step? at hstep
  split at hstep
  · rename_i event hcall
    cases hstep
    have hlogged : Tallies past (r.reportAll (r.changeRecords event)) :=
      h.silent rfl id rfl h.idle (fun _ => rfl) (Nat.le_refl _)
    exact hlogged.reportCall .success
  · cases hstep
  · rename_i hcall
    have hcalling : r.calling = [] := by rw [calling, hcall]; rfl
    rw [hcalling, List.nil_append]
    split at hstep
    · rename_i delivery dispatcher hfinish
      cases hstep
      have hawaited := Dispatcher.awaited_finish hfinish
      obtain ⟨-, -, rfl⟩ := Dispatcher.finish?_eq_some hfinish
      split at hsize <;> rename_i hok
      · rw [if_pos hok]
        exact h.silent rfl id rfl h.idle hawaited hsize
      · rw [if_neg hok]
        exact h.silent rfl id rfl h.idle hawaited hsize
    · obtain ⟨dispatcher, htake, rfl⟩ := Option.map_eq_some_iff.1 hstep
      have hawaited := Dispatcher.awaited_take htake
      obtain ⟨-, -, event, queue, hqueue, rfl⟩ := Dispatcher.take?_eq_some htake
      refine h.silent rfl id rfl (fun hworker => ?_) hawaited hsize
      rw [h.idle hworker] at hqueue
      cases hqueue

theorem beginStop (h : Tallies past r) (token : Option AccessToken) :
    Tallies past (r.beginStop token).2 := by
  unfold Registry.beginStop
  split
  · exact h
  · exact h.silent rfl (fun _ => rfl) rfl h.idle (fun _ => rfl) (Nat.le_refl _)

theorem finishStop (h : Tallies past r) (hstopped : r.stopped = true) (digest : DigestFunction)
    (chance : Cache.Chance) (files : FileSystem) :
    Tallies past (r.finishStop digest chance files).1 := by
  obtain ⟨-, hlisteners, hdispatcher, hstill, -⟩ := finishStop_frame digest chance r files
  have hsize := (Snapshots.Persists.closeQueue r.dispatcher.snapshots r.dispatcher.queue).size_le
  refine
    { listening := fun l => by rw [hlisteners]; exact h.listening l
      stopped := fun _ => hstill.trans hstopped
      idle := fun _ => by rw [hdispatcher]; rfl
      exact := by rw [hdispatcher]; nofun
      bounded := fun l => ?_
      taken := fun m hm => ?_
      nodup := h.nodup }
  · rw [hdispatcher]
    refine .trans ?_ (h.bounded l)
    simp only [Dispatcher.awaited, Dispatcher.stop, Dispatcher.dropQueue, List.flatMap_nil,
      List.append_nil, ← List.append_assoc]
    exact List.prefix_append _ _
  · rw [hdispatcher]
    exact ⟨(h.taken m hm).1, fun id hid => ((h.taken m hm).2 id hid).trans_le hsize⟩

end Tallies

def stepped (r : Registry) : Registry := r.step?.getD r

theorem Recorded.stepped {past : List Happening} {r : Registry} (h : Recorded past r)
    (hstep : r.step?.isSome = true) : Recorded (r.calling ++ past) r.stepped := by
  obtain ⟨r', hr'⟩ := Option.isSome_iff_exists.1 hstep
  rw [Registry.stepped, hr']
  exact h.step hr'

/-- A registry without a cache needs no better one. -/
def idleDigest : DigestFunction := fun _ => ⟨List.replicate 32 (.ofNat 0), List.length_replicate⟩

/-- Listening are the built-in listener, one for everything that is then added for one namespace
too, and one for a namespace in which nothing changes. -/
def sampleHeard : Registry :=
  (((start idleDigest .empty { debugEvents := true } sample.strategy none).addListener (.host 0)
    none).addListener (.host 0) (some "tools")).addListener (.host 1) (some "tools")

theorem recorded_sampleHeard : Recorded [.added (.host 1) (some "tools"),
    .added (.host 0) (some "tools"), .added (.host 0) none, .added .eventLog none] sampleHeard :=
  (((Recorded.start _ .empty { debugEvents := true } sample.strategy none).addListener (.host 0)
    none).addListener (.host 0) (some "tools")).addListener (.host 1) (some "tools")

/-- The registry when the point came while no worker could be started, and then the link was taken
away again with a worker. -/
def sampleUnserved : Registry :=
  let r := (Write.add { contributor := ⟨2⟩, extensions := [{ target := "ui.menu" }] }).perform
    sampleHeard
  let refused : Registry :=
    { r with dispatcher := { r.dispatcher with startError := some "EAGAIN" } }
  let linked := samplePoint.perform refused
  (Write.remove ⟨2⟩).perform
    { linked with dispatcher := { linked.dispatcher with startError := none } }

theorem lost_sampleUnserved : ∃ past, Recorded past sampleUnserved ∧
    (due (.host 0) past).length = 2 ∧ received (.host 0) past = [] ∧
    sampleUnserved.dispatcher.awaited (.host 0) = sent (.host 0) past ∧
    (sent (.host 0) past).length = 1 := by
  have hunserved : Recorded _ sampleUnserved :=
    ((((recorded_sampleHeard.write
      (.add { contributor := ⟨2⟩, extensions := [{ target := "ui.menu" }] })).workers
      (some "EAGAIN")).write samplePoint).workers none).write (.remove ⟨2⟩)
  exact ⟨_, hunserved, by decide +kernel, by decide +kernel, by decide +kernel, by decide +kernel⟩

end Registry

end PluginRegistry
