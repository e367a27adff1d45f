import PluginRegistry.Event
import PluginRegistry.Text.Quoted

/-!
# Delivering one event

A `Delivery` shows the changes of one write to the listeners that want them, one call after the
other. What a listener does is up to the host: `next?` says whom to call with what, `report` takes
down how the call ended and moves on. A call that fails or panics is noted as a failure and the
others go on. `run` does all calls in a row, and `process` closes the event after them.
-/

namespace PluginRegistry

/-- Who is told about changes. -/
inductive Listener
  /-- The built-in one, which writes every change to the log. -/
  | eventLog
  /-- One of the host's, by the number the host knows it by. -/
  | host (key : Nat)
  deriving DecidableEq, Repr

/-- A registered listener and the namespace it asked for. -/
structure ListenerInfo where
  listener : Listener
  filter : Option String
  deriving DecidableEq, Repr

def ListenerInfo.describe (info : ListenerInfo) : String :=
  "ListenerInfo \x7b filter: " ++ Text.quotedOption info.filter ++ ", .. \x7d"

/-- Whether a listener wants to be called for some changes. -/
def ListenerInfo.accepts (info : ListenerInfo) (deltas : DeltaMap) : Bool :=
  match info.filter with
  | none => true
  | some ns => deltas.contains ns

/-- How the call of a listener ended. -/
inductive CallResult
  | success
  | failure (error : String)
  /-- A panic; its message if it is text. -/
  | panic (message : Option String)
  deriving DecidableEq, Repr

def CallResult.error? : CallResult → Option String
  | .success => none
  | .failure error => some error
  | .panic message =>
    some ("listener panicked: " ++ message.getD "non-string panic payload")

/-- A call that failed. -/
structure ListenerFailure where
  filter : Option String
  error : String
  deriving DecidableEq, Repr

/-- An event on its way to its listeners. -/
structure Delivery where
  deltas : DeltaMap
  /-- The listeners that are still to be called. -/
  remaining : List ListenerInfo
  /-- The number of calls that ended well. -/
  delivered : Nat := 0
  failures : List ListenerFailure := []
  deriving Repr

namespace Delivery

/-- An event none of whose listeners was called yet. -/
def start (listeners : List ListenerInfo) (deltas : DeltaMap) : Delivery :=
  { deltas, remaining := listeners.filter (·.accepts deltas) }

/-- The event as a listener sees it. -/
def eventFor (d : Delivery) (info : ListenerInfo) : ChangeEvent :=
  { deltas := d.deltas, filter := info.filter }

def next? (d : Delivery) : Option ListenerInfo := d.remaining.head?

/-- Takes down how the call of the next listener ended. -/
def report (d : Delivery) (result : CallResult) : Delivery :=
  match d.remaining with
  | [] => d
  | info :: remaining =>
    match result.error? with
    | none => { d with remaining, delivered := d.delivered + 1 }
    | some error =>
      { d with remaining, failures := d.failures ++ [{ filter := info.filter, error }] }

def isOk (d : Delivery) : Bool := d.failures.isEmpty

/-- Calls all remaining listeners in turn. -/
def run {m : Type → Type} [Monad m] (call : ListenerInfo → ChangeEvent → m CallResult)
    (d : Delivery) : m Delivery :=
  match _h : d.remaining with
  | [] => pure d
  | info :: _ => do
    let result ← call info (d.eventFor info)
    run call (d.report result)
termination_by d.remaining.length
decreasing_by
  simp only [report, _h]
  split <;> simp

/-- Shows the changes of a write to all listeners that want them and closes their snapshots when the
last call is over. Every call is given the snapshots there were before the first one. -/
def process {m : Type → Type} [Monad m]
    (call : Snapshots → ListenerInfo → ChangeEvent → m CallResult) (listeners : List ListenerInfo)
    (deltas : DeltaMap) (snapshots : Snapshots) : m (Delivery × Snapshots) := do
  let d ← (start listeners deltas).run (call snapshots)
  pure (d, deltas.close snapshots)

end Delivery

end PluginRegistry
