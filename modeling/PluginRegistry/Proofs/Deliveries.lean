import PluginRegistry.Proofs.Turns

/-!
# The course of the event queue

A `History` is a dispatcher with everything that went through it: the events that were scheduled,
those the worker took, the deliveries that are over. Whatever scheduling, stopping and the worker do
in turn, the scheduled events fall into four parts one after the other: delivered, in flight,
queued, dropped (`Accounted`). The snapshots of the first and the last part are closed, the others
are open.

Events do not close each other because each brings snapshots of its own. The event of a write does,
since its snapshot is taken when the write ends (`DeltaTracker.finish_own`).
-/

namespace PluginRegistry

/-! ## Snapshots of a map -/

namespace DeltaMap

def snapshotIds (m : DeltaMap) : List SnapshotId := m.entries.filterMap (·.snapshot)

/-- Every entry's snapshot still has its objects. -/
def OpenIn (m : DeltaMap) (s : Snapshots) : Prop := ∀ id ∈ m.snapshotIds, s.isClosed id = false

/-- Every entry's snapshot was taken once and its objects are gone. -/
def ClosedIn (m : DeltaMap) (s : Snapshots) : Prop :=
  ∀ id ∈ m.snapshotIds, id.index < s.tables.size ∧ s.isClosed id = true

/-- No snapshot is shared. -/
def Apart (m m' : DeltaMap) : Prop := m.snapshotIds.Disjoint m'.snapshotIds

variable {m m' : DeltaMap} {s s' : Snapshots}

theorem Apart.symm (h : m.Apart m') : m'.Apart m := fun _ hid hid' => h hid' hid

theorem snapshotIds_withSnapshot (m : DeltaMap) (id : SnapshotId) :
    (m.withSnapshot id).snapshotIds = List.replicate m.entries.length id := by
  simp [snapshotIds, withSnapshot, List.filterMap_map]

theorem isClosed_close (m : DeltaMap) (s : Snapshots) (id : SnapshotId) :
    (m.close s).isClosed id = (decide (id ∈ m.snapshotIds) || s.isClosed id) := by
  have hcaptured : (m.close s).captured? id = if id ∈ m.snapshotIds then none else s.captured? id :=
    Snapshots.captured?_closeAll s m.snapshotIds id
  rw [Snapshots.isClosed, hcaptured]
  by_cases h : id ∈ m.snapshotIds <;> simp [h, Snapshots.isClosed]

theorem OpenIn.index_lt (h : m.OpenIn s) {id : SnapshotId} (hid : id ∈ m.snapshotIds) :
    id.index < s.tables.size := by
  cases hcaptured : s.captured? id with
  | none =>
    have hopen := h id hid
    rw [Snapshots.isClosed, hcaptured] at hopen
    cases hopen
  | some captured => exact Snapshots.index_lt_of_captured? hcaptured

theorem OpenIn.close (h : m.OpenIn s) (hapart : m'.Apart m) : m.OpenIn (m'.close s) := by
  intro id hid
  have hother : id ∉ m'.snapshotIds := fun hid' => hapart hid' hid
  rw [isClosed_close, decide_eq_false hother, Bool.false_or, h id hid]

theorem OpenIn.closedIn_close (h : m.OpenIn s) : m.ClosedIn (m.close s) := fun id hid =>
  ⟨(h.index_lt hid).trans_le (Snapshots.Persists.closeMap s m).size_le,
    by rw [isClosed_close, decide_eq_true hid, Bool.true_or]⟩

theorem ClosedIn.persists (h : m.ClosedIn s) (hs : s.Persists s') : m.ClosedIn s' := fun id hid =>
  ⟨(h id hid).1.trans_le hs.size_le, hs.isClosed (h id hid).1 (h id hid).2⟩

end DeltaMap

namespace Snapshots

theorem captured?_add (s : Snapshots) (captured : Captured) (id : SnapshotId) :
    (s.add captured).2.captured? id =
      if id.index = s.tables.size then some captured else s.captured? id := by
  simp only [add, captured?, Array.getElem?_push]
  split <;> rfl

theorem Persists.add (s : Snapshots) (captured : Captured) : s.Persists (s.add captured).2 where
  size_le := by simp [Snapshots.add]
  kept id hlt := .inl (by rw [captured?_add, if_neg hlt.ne])

theorem openIn_add {m : DeltaMap} {s : Snapshots} (h : m.OpenIn s) (captured : Captured) :
    m.OpenIn (s.add captured).2 := by
  intro id hid
  rw [isClosed, captured?_add, if_neg (h.index_lt hid).ne]
  exact h id hid

end Snapshots

namespace DeltaTracker

theorem index_of_mem_finish {t : DeltaTracker} {s : Snapshots} {id : SnapshotId}
    (hid : id ∈ (t.finish s).1.snapshotIds) : id.index = s.tables.size := by
  unfold finish at hid
  split at hid
  · exact absurd hid List.not_mem_nil
  · rw [DeltaMap.snapshotIds_withSnapshot] at hid
    rw [List.eq_of_mem_replicate hid]
    rfl

/-- The changes of a write come with a snapshot that no event has so far. -/
theorem finish_own (t : DeltaTracker) (s : Snapshots) :
    (t.finish s).1.OpenIn (t.finish s).2.1 ∧
      ∀ m : DeltaMap, (∀ id ∈ m.snapshotIds, id.index < s.tables.size) →
        m.Apart (t.finish s).1 := by
  refine ⟨fun id hid => ?_, fun m hm id hid hid' => (hm id hid).ne (index_of_mem_finish hid')⟩
  have hindex := index_of_mem_finish hid
  unfold finish at hid ⊢
  split at hid
  · exact absurd hid List.not_mem_nil
  · rw [if_neg ‹_›, Snapshots.isClosed, Snapshots.captured?_add, if_pos hindex]
    rfl

end DeltaTracker

/-! ## Events on their way -/

namespace QueuedEvent

def audience (e : QueuedEvent) : List ListenerInfo := e.listeners.filter (·.accepts e.deltas)

/-- A delivery of the event, in which the first few of those it is for were called. -/
structure Serves (e : QueuedEvent) (d : Delivery) : Prop where
  deltas_eq : d.deltas = e.deltas
  called : ∃ called, e.audience = called ++ d.remaining ∧
    called.length = d.delivered + d.failures.length

/-- A delivery in which everybody was called. -/
def Served (e : QueuedEvent) (d : Delivery) : Prop := e.Serves d ∧ d.remaining = []

variable {e : QueuedEvent} {d : Delivery}

theorem serves_start (e : QueuedEvent) : e.Serves (.start e.listeners e.deltas) :=
  ⟨rfl, [], rfl, rfl⟩

theorem Serves.report (h : e.Serves d) (result : CallResult) : e.Serves (d.report result) := by
  obtain ⟨hdeltas, called, haudience, hlength⟩ := h
  unfold Delivery.report
  split
  · exact ⟨hdeltas, called, haudience, hlength⟩
  · rename_i info remaining hremaining
    have hnext : e.audience = (called ++ [info]) ++ remaining := by
      rw [haudience, hremaining, List.append_assoc, List.singleton_append]
    have hcount : (called ++ [info]).length = d.delivered + d.failures.length + 1 := by
      rw [List.length_append, hlength, List.length_singleton]
    split
    · exact ⟨hdeltas, called ++ [info], hnext, by rw [hcount, Nat.add_right_comm]⟩
    · exact ⟨hdeltas, called ++ [info], hnext, by rw [hcount, List.length_append]; rfl⟩

end QueuedEvent

namespace Dispatcher

variable {d d' : Dispatcher}

theorem take?_eq_some (h : d.take? = some d') : d.inFlight = none ∧ d.stopped = false ∧
    ∃ event queue, d.queue = event :: queue ∧
      d' = { d with queue, inFlight := some (.start event.listeners event.deltas) } := by
  unfold take? at h
  split at h
  · rename_i event queue hfree hrunning hqueue
    exact ⟨hfree, hrunning, event, queue, hqueue, (Option.some.inj h).symm⟩
  · cases h

theorem finish?_eq_some {delivery : Delivery} (h : d.finish? = some (delivery, d')) :
    d.inFlight = some delivery ∧ delivery.remaining = [] ∧
      d' = { d with inFlight := none, snapshots := delivery.deltas.close d.snapshots } := by
  unfold finish? at h
  split at h
  · rename_i current hcurrent
    split at h
    · rename_i hdone
      cases h
      exact ⟨hcurrent, List.isEmpty_iff.1 hdone, rfl⟩
    · cases h
  · cases h

theorem closedIn_closeQueue {queue : List QueuedEvent} {s : Snapshots}
    (hopen : ∀ e ∈ queue, e.deltas.OpenIn s)
    (hapart : queue.Pairwise fun e e' => e.deltas.Apart e'.deltas) :
    ∀ e ∈ queue, e.deltas.ClosedIn (queue.foldl (fun s event => event.deltas.close s) s) := by
  induction queue generalizing s with
  | nil => exact fun _ h => absurd h List.not_mem_nil
  | cons first queue ih =>
    obtain ⟨hfirst, hrest⟩ := List.pairwise_cons.1 hapart
    intro e he
    rcases List.mem_cons.1 he with rfl | he
    · exact (hopen e List.mem_cons_self).closedIn_close.persists (.closeQueue _ queue)
    · exact ih (fun e' he' => (hopen e' (List.mem_cons_of_mem _ he')).close (hfirst e' he')) hrest
        e he

theorem openIn_closeQueue {queue : List QueuedEvent} {s : Snapshots} {m : DeltaMap}
    (hopen : m.OpenIn s) (hapart : ∀ e ∈ queue, e.deltas.Apart m) :
    m.OpenIn (queue.foldl (fun s event => event.deltas.close s) s) := by
  induction queue generalizing s with
  | nil => exact hopen
  | cons first queue ih =>
    exact ih (hopen.close (hapart first List.mem_cons_self)) fun e he =>
      hapart e (List.mem_cons_of_mem _ he)

/-! ## Histories -/

/-- A dispatcher and what went through it, each in order. -/
structure History where
  now : Dispatcher
  scheduled : List QueuedEvent
  /-- The events the worker has taken from the queue. -/
  started : List QueuedEvent
  /-- The deliveries that are over. -/
  finished : List Delivery

namespace History

/-- A dispatcher nothing was scheduled on yet, beside any snapshots. Its worker can be started. -/
def new (snapshots : Snapshots) : History := ⟨{ empty with snapshots }, [], [], []⟩

/-- What happens to a dispatcher. An event is scheduled with snapshots of its own that are open. -/
inductive Step : History → History → Prop
  | capture (x : History) (captured : Captured) :
    Step x { x with now := { x.now with snapshots := (x.now.snapshots.add captured).2 } }
  | schedule (x : History) (event : QueuedEvent) (hopen : event.deltas.OpenIn x.now.snapshots)
      (hown : ∀ e ∈ x.scheduled, e.deltas.Apart event.deltas) :
    Step x { x with now := x.now.schedule event, scheduled := x.scheduled ++ [event] }
  | stop (x : History) : Step x { x with now := x.now.stop }
  | take (x : History) {event : QueuedEvent} {queue : List QueuedEvent} {next : Dispatcher}
      (hqueue : x.now.queue = event :: queue) (htake : x.now.take? = some next) :
    Step x { x with now := next, started := x.started ++ [event] }
  | call (x : History) (result : CallResult) : Step x { x with now := x.now.report result }
  | finish (x : History) {delivery : Delivery} {next : Dispatcher}
      (hfinish : x.now.finish? = some (delivery, next)) :
    Step x { x with now := next, finished := x.finished ++ [delivery] }

def Run (x y : History) : Prop := Relation.ReflTransGen Step x y

/-- Where the scheduled events are. -/
structure Accounted (x : History) (delivered current dropped : List QueuedEvent) : Prop where
  scheduled_eq : x.scheduled = delivered ++ current ++ x.now.queue ++ dropped
  started_eq : x.started = delivered ++ current
  served : List.Forall₂ QueuedEvent.Served delivered x.finished
  serving : List.Forall₂ QueuedEvent.Serves current x.now.inFlight.toList
  closed : ∀ e ∈ delivered ++ dropped, e.deltas.ClosedIn x.now.snapshots
  waiting : ∀ e ∈ current ++ x.now.queue, e.deltas.OpenIn x.now.snapshots
  running : x.now.stopped = false → dropped = []
  stopped : x.now.stopped = true → x.now.queue = []
  apart : x.scheduled.Pairwise fun e e' => e.deltas.Apart e'.deltas
  starts : x.now.startError = none

variable {x y : History} {delivered current dropped : List QueuedEvent}

theorem accounted_new (snapshots : Snapshots) : (new snapshots).Accounted [] [] [] where
  scheduled_eq := rfl
  started_eq := rfl
  served := .nil
  serving := .nil
  closed _ h := absurd h List.not_mem_nil
  waiting _ h := absurd h List.not_mem_nil
  running _ := rfl
  stopped _ := rfl
  apart := .nil
  starts := rfl

/-! ### One more step -/

namespace Accounted

variable (h : x.Accounted delivered current dropped)

include h

theorem mem_scheduled {e : QueuedEvent} (he : e ∈ current ++ x.now.queue) : e ∈ x.scheduled := by
  rw [h.scheduled_eq, List.append_assoc delivered]
  exact List.mem_append_left _ (List.mem_append_right _ he)

/-- What is in flight and what is queued share no snapshot with each other. -/
theorem apart_waiting : (current ++ x.now.queue).Pairwise fun e e' => e.deltas.Apart e'.deltas := by
  have hapart := h.apart
  rw [h.scheduled_eq, List.append_assoc delivered, List.append_assoc, List.pairwise_append]
    at hapart
  exact (List.pairwise_append.1 hapart.2.1).1

theorem capture (captured : Captured) :
    Accounted { x with now := { x.now with snapshots := (x.now.snapshots.add captured).2 } }
      delivered current dropped :=
  { h with
    closed := fun e he => (h.closed e he).persists (.add _ captured)
    waiting := fun e he => Snapshots.openIn_add (h.waiting e he) captured }

theorem apart_schedule {event : QueuedEvent}
    (hown : ∀ e ∈ x.scheduled, e.deltas.Apart event.deltas) :
    (x.scheduled ++ [event]).Pairwise fun e e' => e.deltas.Apart e'.deltas :=
  List.pairwise_append.2 ⟨h.apart, List.pairwise_singleton _ _, by simpa using hown⟩

theorem schedule_running (hrunning : x.now.stopped = false) {event : QueuedEvent}
    (hopen : event.deltas.OpenIn x.now.snapshots)
    (hown : ∀ e ∈ x.scheduled, e.deltas.Apart event.deltas) :
    Accounted { x with now := x.now.schedule event, scheduled := x.scheduled ++ [event] }
      delivered current dropped := by
  have hnext : x.now.schedule event =
      { x.now with queue := x.now.queue ++ [event], hasWorker := true } := by
    have hrefusal : { x.now with queue := x.now.queue ++ [event] }.refusal? = none := by
      rw [refusal?, h.starts, ite_self]
    rw [Dispatcher.schedule, if_neg (by simp [hrunning]), ensureWorker, hrefusal]
  rw [hnext]
  refine { h with
    scheduled_eq := ?_
    waiting := fun e he => ?_
    stopped := fun hstopped => ?_
    apart := h.apart_schedule hown }
  · obtain rfl := h.running hrunning
    simp only [h.scheduled_eq, List.append_nil, List.append_assoc]
  · rw [← List.append_assoc] at he
    rcases List.mem_append.1 he with he | he
    · exact h.waiting e he
    · exact List.mem_singleton.1 he ▸ hopen
  · rw [hrunning] at hstopped
    cases hstopped

theorem schedule_stopped (hstopped : x.now.stopped = true) {event : QueuedEvent}
    (hopen : event.deltas.OpenIn x.now.snapshots)
    (hown : ∀ e ∈ x.scheduled, e.deltas.Apart event.deltas) :
    Accounted { x with now := x.now.schedule event, scheduled := x.scheduled ++ [event] }
      delivered current (dropped ++ [event]) := by
  have hnext : x.now.schedule event = x.now.close event.deltas := by
    rw [Dispatcher.schedule, if_pos hstopped]
  rw [hnext]
  refine { h with
    scheduled_eq := ?_
    closed := fun e he => ?_
    waiting := fun e he => ?_
    running := fun hrunning => ?_
    apart := h.apart_schedule hown }
  · simp only [close, h.scheduled_eq, List.append_assoc]
  · rw [← List.append_assoc] at he
    rcases List.mem_append.1 he with he | he
    · exact (h.closed e he).persists (.closeMap _ _)
    · exact List.mem_singleton.1 he ▸ hopen.closedIn_close
  · exact (h.waiting e he).close (hown e (h.mem_scheduled he)).symm
  · rw [close, hstopped] at hrunning
    cases hrunning

theorem stop :
    Accounted { x with now := x.now.stop } delivered current (x.now.queue ++ dropped) := by
  obtain ⟨-, hqueue, hcurrent⟩ := List.pairwise_append.1 h.apart_waiting
  refine { h with
    scheduled_eq := ?_
    closed := fun e he => ?_
    waiting := fun e he => ?_
    running := nofun
    stopped := fun _ => rfl }
  · simp only [Dispatcher.stop, dropQueue, h.scheduled_eq, List.append_assoc, List.nil_append]
  · have hclosed : e ∈ delivered ++ dropped ∨ e ∈ x.now.queue := by
      simp only [List.mem_append] at he ⊢
      tauto
    rcases hclosed with he | he
    · exact (h.closed e he).persists (.closeQueue _ x.now.queue)
    · exact closedIn_closeQueue (fun e he => h.waiting e (List.mem_append_right _ he)) hqueue e he
  · rw [Dispatcher.stop, dropQueue, List.append_nil] at he
    exact openIn_closeQueue (h.waiting e (List.mem_append_left _ he)) fun e' he' =>
      (hcurrent e he e' he').symm

theorem take {event : QueuedEvent} {queue : List QueuedEvent} {next : Dispatcher}
    (hqueue : x.now.queue = event :: queue) (htake : x.now.take? = some next) :
    Accounted { x with now := next, started := x.started ++ [event] }
      delivered (current ++ [event]) dropped := by
  obtain ⟨hfree, hrunning, _, _, hqueue', rfl⟩ := take?_eq_some htake
  cases hqueue.symm.trans hqueue'
  have hserving := h.serving
  rw [hfree] at hserving
  cases hserving
  refine { h with
    scheduled_eq := by simp [h.scheduled_eq, hqueue]
    started_eq := by simp [h.started_eq]
    serving := .cons event.serves_start .nil
    waiting := fun e he => h.waiting e (by rwa [hqueue])
    stopped := fun hstopped => ?_ }
  rw [hrunning] at hstopped
  cases hstopped

theorem call (result : CallResult) :
    Accounted { x with now := x.now.report result } delivered current dropped := by
  refine { h with serving := ?_ }
  have hserving := h.serving
  rw [report]
  cases hflight : x.now.inFlight with
  | none =>
    rw [hflight] at hserving
    exact hserving
  | some delivery =>
    rw [hflight] at hserving
    obtain ⟨e, es, he, hes, rfl⟩ := List.forall₂_cons_right_iff.1 hserving
    exact .cons (he.report result) hes

theorem finish {delivery : Delivery} {next : Dispatcher}
    (hfinish : x.now.finish? = some (delivery, next)) :
    Accounted { x with now := next, finished := x.finished ++ [delivery] }
      (delivered ++ current) [] dropped := by
  obtain ⟨hflight, hdone, rfl⟩ := finish?_eq_some hfinish
  have hserving := h.serving
  rw [hflight] at hserving
  obtain ⟨event, rest, hevent, hrest, rfl⟩ := List.forall₂_cons_right_iff.1 hserving
  cases hrest
  obtain ⟨-, -, hcurrent⟩ := List.pairwise_append.1 h.apart_waiting
  refine { h with
    scheduled_eq := by simp [h.scheduled_eq]
    started_eq := by simp [h.started_eq]
    served := List.rel_append h.served (.cons ⟨hevent, hdone⟩ .nil)
    serving := .nil
    closed := fun e he => ?_
    waiting := fun e he => ?_ }
  · have hclosed : e ∈ delivered ++ dropped ∨ e = event := by
      simp only [List.mem_append, List.mem_singleton] at he ⊢
      tauto
    rcases hclosed with he | rfl
    · exact (h.closed e he).persists (.closeMap _ _)
    · rw [hevent.deltas_eq]
      exact (h.waiting e List.mem_cons_self).closedIn_close
  · rw [hevent.deltas_eq]
    exact (h.waiting e (List.mem_append_right _ he)).close
      (hcurrent event List.mem_cons_self e he)

theorem step (hs : Step x y) :
    ∃ delivered' current' dropped', y.Accounted delivered' current' dropped' := by
  cases hs with
  | capture captured => exact ⟨_, _, _, h.capture captured⟩
  | schedule event hopen hown =>
    cases hstopped : x.now.stopped with
    | false => exact ⟨_, _, _, h.schedule_running hstopped hopen hown⟩
    | true => exact ⟨_, _, _, h.schedule_stopped hstopped hopen hown⟩
  | stop => exact ⟨_, _, _, h.stop⟩
  | take hqueue htake => exact ⟨_, _, _, h.take hqueue htake⟩
  | call result => exact ⟨_, _, _, h.call result⟩
  | finish hfinish => exact ⟨_, _, _, h.finish hfinish⟩

theorem run (hrun : x.Run y) :
    ∃ delivered' current' dropped', y.Accounted delivered' current' dropped' := by
  induction hrun with
  | refl => exact ⟨_, _, _, h⟩
  | tail _ hstep ih =>
    obtain ⟨_, _, _, hmid⟩ := ih
    exact hmid.step hstep

end Accounted

/-! ### After a stop -/

theorem Step.of_stopped (hs : Step x y) (hstopped : x.now.stopped = true) :
    y.now.stopped = true ∧ y.started = x.started := by
  cases hs with
  | capture => exact ⟨hstopped, rfl⟩
  | schedule event =>
    refine ⟨?_, rfl⟩
    rw [Dispatcher.schedule, if_pos hstopped]
    exact hstopped
  | stop => exact ⟨rfl, rfl⟩
  | take hqueue htake =>
    obtain ⟨-, hrunning, -⟩ := take?_eq_some htake
    rw [hstopped] at hrunning
    cases hrunning
  | call => exact ⟨hstopped, rfl⟩
  | finish hfinish =>
    obtain ⟨-, -, rfl⟩ := finish?_eq_some hfinish
    exact ⟨hstopped, rfl⟩

theorem Run.of_stopped (run : x.Run y) (hstopped : x.now.stopped = true) :
    y.now.stopped = true ∧ y.started = x.started := by
  induction run with
  | refl => exact ⟨hstopped, rfl⟩
  | tail _ hstep ih =>
    obtain ⟨hmid, heq⟩ := ih
    obtain ⟨hlast, heq'⟩ := hstep.of_stopped hmid
    exact ⟨hlast, heq'.trans heq⟩

/-- Whatever happens to a new dispatcher whose worker can be started, its events are accounted for
and the worker takes them in the order they were scheduled. From a stop on nothing waits, nothing is
taken, and all events that were not taken before are closed. What is scheduled is, as
`Step.schedule` asks, on snapshots that are open then and that no event scheduled before is on; what
a write hands out is (`DeltaTracker.finish_own`). -/
theorem accounted_of_run {snapshots : Snapshots} (run : (new snapshots).Run x) :
    (∃ delivered current dropped, x.Accounted delivered current dropped) ∧
      x.started <+: x.scheduled ∧
      (x.now.stopped = true → ∀ y : History, x.Run y → y.now.stopped = true ∧
        y.now.pending = 0 ∧ y.started = x.started ∧
          ∀ e ∈ y.scheduled.drop y.started.length, e.deltas.ClosedIn y.now.snapshots) := by
  obtain ⟨_, _, _, hx⟩ := (accounted_new snapshots).run run
  refine ⟨⟨_, _, _, hx⟩, ?_, fun hstopped y hrun => ?_⟩
  · rw [hx.scheduled_eq, ← hx.started_eq, List.append_assoc]
    exact List.prefix_append _ _
  · obtain ⟨delivered, current, dropped, hy⟩ := hx.run hrun
    obtain ⟨hstill, hstarted⟩ := hrun.of_stopped hstopped
    have hqueue := hy.stopped hstill
    refine ⟨hstill, ?_, hstarted, fun e he => ?_⟩
    · rw [pending, hqueue]
      rfl
    · rw [hy.scheduled_eq, hqueue, List.append_nil, ← hy.started_eq, List.drop_left] at he
      exact hy.closed e (List.mem_append_right _ he)

/-! ### A small history -/

def sampleEvent (index : Nat) : QueuedEvent where
  listeners := [⟨.host 0, none⟩]
  deltas := ⟨[{ ns := "ui", snapshot := some ⟨index⟩ }]⟩

/-- A dispatcher beside three snapshots that is stopped when the first of two events is in flight
and the second waits. The third comes too late. -/
def sampleStopped : History where
  now := { empty with
    inFlight := some (.start (sampleEvent 0).listeners (sampleEvent 0).deltas)
    stopped := true
    snapshots := ⟨#[some ∅, none, none]⟩ }
  scheduled := [sampleEvent 0, sampleEvent 1, sampleEvent 2]
  started := [sampleEvent 0]
  finished := []

theorem run_sampleStopped : (new ⟨#[some ∅, some ∅, some ∅]⟩).Run sampleStopped := by
  have hopen : ∀ {index : Nat} {s : Snapshots}, s.isClosed ⟨index⟩ = false →
      (sampleEvent index).deltas.OpenIn s := fun h id hid => List.mem_singleton.1 hid ▸ h
  have hown : ∀ {index index' : Nat}, index ≠ index' →
      (sampleEvent index).deltas.Apart (sampleEvent index').deltas := by
    intro index index' hne id hid hid'
    cases List.mem_singleton.1 hid
    cases List.mem_singleton.1 hid'
    exact hne rfl
  refine .tail (.tail (.tail (.tail (.single (.schedule _ (sampleEvent 0) (hopen rfl) nofun))
    (.schedule _ (sampleEvent 1) (hopen rfl) ?_)) (.take _ rfl rfl)) (.stop _))
    (.schedule _ (sampleEvent 2) (hopen rfl) ?_)
  · rintro e he
    cases List.mem_singleton.1 he
    exact hown (by decide)
  · rintro e he
    rcases List.mem_pair.1 he with rfl | rfl <;> exact hown (by decide)

theorem accounted_sampleStopped : sampleStopped.started <+: sampleStopped.scheduled ∧
    sampleStopped.now.pending = 0 ∧
      ∀ e ∈ [sampleEvent 1, sampleEvent 2], e.deltas.ClosedIn sampleStopped.now.snapshots := by
  obtain ⟨-, hstarted, hstopped⟩ := accounted_of_run run_sampleStopped
  obtain ⟨-, hpending, -, hclosed⟩ := hstopped rfl sampleStopped .refl
  exact ⟨hstarted, hpending, hclosed⟩

end History

end Dispatcher

end PluginRegistry
