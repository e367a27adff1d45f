import PluginRegistry.Proofs.Notices

/-!
# Calls that fail

Delivering an event is nothing but calling everybody it is for, in a row (`Delivery.process_eq`):
whom, with what, and beside which snapshots, is settled before the first call and the same however
the calls end. How they ended is only looked at afterwards, to count those that ended well and to
list the others. The snapshots of the event are closed then.

A call may do anything its host can do, so the equation is stated for every monad.
-/

namespace PluginRegistry

/-- A call that was made and how it ended. -/
structure EndedCall where
  info : ListenerInfo
  result : CallResult
  deriving DecidableEq, Repr

def EndedCall.failure? : EndedCall → Option ListenerFailure
  | ⟨_, .success⟩ => none
  | ⟨info, .failure error⟩ => some ⟨info.filter, error⟩
  | ⟨info, .panic (some message)⟩ => some ⟨info.filter, "listener panicked: " ++ message⟩
  | ⟨info, .panic none⟩ => some ⟨info.filter, "listener panicked: non-string panic payload"⟩

namespace Delivery

/-- The delivery after these calls, when nobody is left. -/
def ended (d : Delivery) (calls : List EndedCall) : Delivery :=
  { d with
    remaining := []
    delivered := d.delivered + calls.countP (·.result = .success)
    failures := d.failures ++ calls.filterMap EndedCall.failure? }

variable {d : Delivery} {info : ListenerInfo} {rest : List ListenerInfo}

theorem ended_nil (h : d.remaining = []) : d.ended [] = d := by
  obtain ⟨deltas, remaining, delivered, failures⟩ := d
  cases h
  simp [ended]

theorem remaining_report (h : d.remaining = info :: rest) (result : CallResult) :
    (d.report result).remaining = rest := by
  rw [report, h]
  dsimp only
  split <;> rfl

theorem eventFor_report (d : Delivery) (result : CallResult) :
    (d.report result).eventFor = d.eventFor := by
  unfold report
  split
  · rfl
  · split <;> rfl

theorem ended_report (h : d.remaining = info :: rest) (result : CallResult)
    (calls : List EndedCall) :
    (d.report result).ended calls = d.ended (⟨info, result⟩ :: calls) := by
  rw [report, h]
  cases result with
  | success =>
    simp [ended, CallResult.error?, List.filterMap_cons, EndedCall.failure?]
    omega
  | failure error => simp [ended, CallResult.error?, EndedCall.failure?]
  | panic message => cases message <;> simp [ended, CallResult.error?, EndedCall.failure?]

theorem countP_add_length_failures (calls : List EndedCall) :
    calls.countP (·.result = .success) + (calls.filterMap EndedCall.failure?).length =
      calls.length := by
  induction calls with
  | nil => rfl
  | cons call calls ih =>
    obtain ⟨info, result⟩ := call
    rw [List.length_cons, ← ih]
    cases result with
    | success =>
      simp [List.filterMap_cons, EndedCall.failure?]
      omega
    | failure error =>
      simp [EndedCall.failure?]
      omega
    | panic message =>
      cases message <;> simp [EndedCall.failure?] <;> omega

/-! ## Calls in a row -/

section

variable {m : Type → Type} [Monad m] [LawfulMonad m]

/-- What is left of a delivery is the calls of all who remain, each with its own event. -/
theorem run_eq (call : ListenerInfo → ChangeEvent → m CallResult) (d : Delivery) :
    d.run call = (do
      let calls ← d.remaining.mapM fun info => EndedCall.mk info <$> call info (d.eventFor info)
      pure (d.ended calls)) := by
  generalize hremaining : d.remaining = remaining
  induction remaining generalizing d with
  | nil =>
    rw [run]
    split
    · rw [List.mapM_nil, pure_bind, ended_nil hremaining]
    · rename_i h
      rw [hremaining] at h
      cases h
  | cons first rest ih =>
    rw [run]
    split
    · rename_i h
      rw [hremaining] at h
      cases h
    · rename_i info _ h
      rw [hremaining] at h
      obtain ⟨rfl, -⟩ := List.cons.inj h
      rw [List.mapM_cons]
      simp only [bind_assoc, bind_map_left, pure_bind]
      refine bind_congr fun result => ?_
      rw [ih _ (remaining_report hremaining result), eventFor_report]
      refine bind_congr fun calls => ?_
      rw [ended_report hremaining]

/-- Those who want an event are called in the order they were registered, each once and with the
event behind its own filter, and nobody else; all of them beside the snapshots as they were. -/
theorem process_eq (call : Snapshots → ListenerInfo → ChangeEvent → m CallResult)
    (listeners : List ListenerInfo) (deltas : DeltaMap) (snapshots : Snapshots) :
    process call listeners deltas snapshots = (do
      let calls ← (listeners.filter fun info => deltas.concerns info.filter).mapM fun info =>
        EndedCall.mk info <$> call snapshots info { deltas, filter := info.filter }
      pure ((start [] deltas).ended calls, deltas.close snapshots)) := by
  have haccepts : (start listeners deltas).remaining =
      listeners.filter fun info => deltas.concerns info.filter := by
    simp only [start, ListenerInfo.accepts_eq]
  rw [process, run_eq, bind_assoc, haccepts]
  refine bind_congr fun calls => ?_
  rw [pure_bind]
  rfl

/-- Whatever the calls do and however they end: exactly those who asked for everything or for a
namespace with changes are called, each once for every time it was registered, in that order, with
nothing that depends on the other calls, and beside the snapshots with all changes still open. What
is noted in the end is one good call or one failure for each call made, the failures in the order of
the calls. All snapshots of the event are closed then. -/
theorem isolated_of_open (call : Snapshots → ListenerInfo → ChangeEvent → m CallResult)
    (listeners : List ListenerInfo) {deltas : DeltaMap} {snapshots : Snapshots}
    (hopen : deltas.OpenIn snapshots) :
    (process call listeners deltas snapshots = (do
      let calls ← (listeners.filter fun info => deltas.concerns info.filter).mapM fun info =>
        EndedCall.mk info <$> call snapshots info { deltas, filter := info.filter }
      pure ((start [] deltas).ended calls, deltas.close snapshots))) ∧
    (∀ calls : List EndedCall,
      let status := (start [] deltas).ended calls
      status.delivered + status.failures.length = calls.length ∧
        status.failures = calls.filterMap EndedCall.failure? ∧
        status.delivered = calls.countP (·.result = .success)) ∧
    deltas.ClosedIn (deltas.close snapshots) := by
  refine ⟨process_eq call listeners deltas snapshots, fun calls => ⟨?_, ?_, ?_⟩,
    hopen.closedIn_close⟩
  · simpa [ended, start] using countP_add_length_failures calls
  · simp [ended, start]
  · simp [ended, start]

end

/-! ### Five registrations of four listeners -/

def sampleChanges : DeltaMap where
  entries := [{ ns := "ui", deltas := [⟨⟨1⟩, ⟨0⟩, .added⟩], snapshot := some ⟨0⟩ }]

/-- The second is registered twice, and the third asked for another namespace. -/
def sampleListeners : List ListenerInfo :=
  [⟨.host 0, none⟩, ⟨.host 1, some "ui"⟩, ⟨.host 2, some "app"⟩, ⟨.host 1, some "ui"⟩,
    ⟨.host 3, none⟩]

/-- Writes down who is called, and whether the snapshot is closed. The second fails and the fourth
panics. -/
def sampleCall (s : Snapshots) (info : ListenerInfo) (_ : ChangeEvent) :
    StateM (List (Listener × Bool)) CallResult := do
  modify (· ++ [(info.listener, s.isClosed ⟨0⟩)])
  match info.listener with
  | .host 1 => pure (.failure "no")
  | .host 3 => pure (.panic none)
  | _ => pure .success

theorem isolated_sampleListeners :
    (process sampleCall sampleListeners sampleChanges ⟨#[some ∅]⟩).run [] =
      (({ deltas := sampleChanges, remaining := [], delivered := 1
          failures := [⟨some "ui", "no"⟩, ⟨some "ui", "no"⟩,
            ⟨none, "listener panicked: non-string panic payload"⟩] },
        sampleChanges.close ⟨#[some ∅]⟩),
        [(.host 0, false), (.host 1, false), (.host 1, false), (.host 3, false)]) ∧
    sampleChanges.ClosedIn (sampleChanges.close ⟨#[some ∅]⟩) := by
  have hopen : sampleChanges.OpenIn ⟨#[some ∅]⟩ := fun id hid => List.mem_singleton.1 hid ▸ rfl
  obtain ⟨heq, -, hclosed⟩ := isolated_of_open sampleCall sampleListeners hopen
  refine ⟨?_, hclosed⟩
  rw [heq]
  rfl

/-! ## The worker's own steps -/

theorem foldl_report (d : Delivery) {results : List CallResult}
    (h : results.length = d.remaining.length) :
    results.foldl report d = d.ended (List.zipWith EndedCall.mk d.remaining results) := by
  generalize hremaining : d.remaining = remaining at h
  induction remaining generalizing d results with
  | nil =>
    rw [List.length_eq_zero_iff.1 h]
    exact (ended_nil hremaining).symm
  | cons info rest ih =>
    obtain ⟨result, results, rfl⟩ := List.exists_cons_of_length_eq_add_one h
    rw [List.foldl_cons, ih _ (remaining_report hremaining result) (Nat.succ.inj h),
      ended_report hremaining, List.zipWith_cons_cons]

end Delivery

namespace Dispatcher

variable {d d' : Dispatcher}

theorem foldl_report (d : Dispatcher) (results : List CallResult) :
    results.foldl report d =
      { d with
        inFlight := d.inFlight.map fun delivery => results.foldl Delivery.report delivery } := by
  induction results generalizing d with
  | nil => simp
  | cons result results ih =>
    rw [List.foldl_cons, ih, report]
    cases d.inFlight <;> rfl

theorem finish?_of_take? {event : QueuedEvent} {queue : List QueuedEvent}
    (hqueue : d.queue = event :: queue) (htake : d.take? = some d') {results : List CallResult}
    (h : results.length = event.audience.length) :
    (results.foldl report d').finish? =
      some ((Delivery.start [] event.deltas).ended
          (List.zipWith EndedCall.mk event.audience results),
        { d with queue, snapshots := event.deltas.close d.snapshots }) := by
  obtain ⟨hfree, -, _, _, hqueue', rfl⟩ := take?_eq_some htake
  cases hqueue.symm.trans hqueue'
  have hended := Delivery.foldl_report (.start event.listeners event.deltas) h
  rw [foldl_report]
  simp only [Option.map_some, hended, finish?, hfree]
  rfl

end Dispatcher

end PluginRegistry
