import PluginRegistry.Delivery

/-!
# The event queue

Writers put events into the queue of a `Dispatcher` and go on; a worker takes them out in order,
one at a time. It is started for the first event, and if the system refuses that, the queue is
dropped and the next event tries again. The worker's moves are `take`, a call of the next listener
taken down by `report`, and `finish`, which closes the snapshot of the event. After `stop` nothing
is taken any more: what was queued is dropped and closed, and so is what comes later. An event in
flight still reaches the listeners it has left.

The dispatcher holds the snapshots, since it decides when one is closed.
-/

namespace PluginRegistry

/-- The changes of a write and those who were registered when it began. -/
structure QueuedEvent where
  listeners : List ListenerInfo
  deltas : DeltaMap
  deriving Repr

/-- Events that wait, and the one being delivered. -/
structure Dispatcher where
  queue : List QueuedEvent
  inFlight : Option Delivery
  stopped : Bool
  snapshots : Snapshots
  hasWorker : Bool
  /-- Why the system starts no worker at the moment, if it refuses to. -/
  startError : Option String

namespace Dispatcher

def empty : Dispatcher := ⟨[], none, false, .empty, false, none⟩

def pending (d : Dispatcher) : Nat := d.queue.length

/-- Closes the snapshots of a delta map. -/
def close (d : Dispatcher) (deltas : DeltaMap) : Dispatcher :=
  { d with snapshots := deltas.close d.snapshots }

/-- Takes all events out of the queue and closes them. -/
def dropQueue (d : Dispatcher) : Dispatcher :=
  { d with
    queue := []
    snapshots := d.queue.foldl (fun s event => event.deltas.close s) d.snapshots }

/-- Why an event that is queued now finds no worker. -/
def refusal? (d : Dispatcher) : Option String := if d.hasWorker then none else d.startError

/-- Starts the worker if there is none. Without one nothing is kept. -/
def ensureWorker (d : Dispatcher) : Dispatcher :=
  match d.refusal? with
  | none => { d with hasWorker := true }
  | some _ => d.dropQueue

/-- Puts an event into the queue; once stopped it is closed instead. -/
def schedule (d : Dispatcher) (event : QueuedEvent) : Dispatcher :=
  if d.stopped then d.close event.deltas else ensureWorker { d with queue := d.queue ++ [event] }

/-- Stops for good and closes what is still in the queue. -/
def stop (d : Dispatcher) : Dispatcher := { d.dropQueue with stopped := true, hasWorker := false }

/-- The worker takes the next event, if it is free and not stopped. -/
def take? (d : Dispatcher) : Option Dispatcher :=
  match d.inFlight, d.stopped, d.queue with
  | none, false, event :: queue =>
    some { d with queue, inFlight := some (Delivery.start event.listeners event.deltas) }
  | _, _, _ => none

/-- Whom the worker calls next, with the event as that listener sees it. -/
def call? (d : Dispatcher) : Option (ListenerInfo × ChangeEvent) := do
  let delivery ← d.inFlight
  let info ← delivery.next?
  pure (info, delivery.eventFor info)

def report (d : Dispatcher) (result : CallResult) : Dispatcher :=
  { d with inFlight := d.inFlight.map (·.report result) }

/-- The worker is done with an event when no listener is left; its snapshot is closed. -/
def finish? (d : Dispatcher) : Option (Delivery × Dispatcher) :=
  match d.inFlight with
  | some delivery =>
    if delivery.remaining.isEmpty then
      some (delivery, { d with
        inFlight := none
        snapshots := delivery.deltas.close d.snapshots })
    else none
  | none => none

end Dispatcher

end PluginRegistry
