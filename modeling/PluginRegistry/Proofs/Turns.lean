import PluginRegistry.Proofs.Outcomes
import PluginRegistry.Registry.Lifecycle

/-!
# What happens to a registry between writes

A `Turn` is one thing that happens to a running registry: a write, a listener that comes or goes,
a move of the worker, a snapshot that someone closes. However many turns are taken, a snapshot
keeps the objects it was taken with until it is closed, and stays closed from then on
(`Registry.Run.persists`).
-/

namespace PluginRegistry

/-! ## Snapshots -/

namespace Snapshots

variable {s s' s'' : Snapshots}

/-- Every snapshot of `s` has the same objects in `s'`, or is closed there. -/
structure Persists (s s' : Snapshots) : Prop where
  size_le : s.tables.size ≤ s'.tables.size
  kept : ∀ id : SnapshotId, id.index < s.tables.size →
    s'.captured? id = s.captured? id ∨ s'.captured? id = none

theorem index_lt_of_captured? {id : SnapshotId} {captured : Captured}
    (h : s.captured? id = some captured) : id.index < s.tables.size := by
  by_contra hge
  rw [captured?, Array.getElem?_eq_none (by omega)] at h
  cases h

namespace Persists

theorem refl (s : Snapshots) : Persists s s := ⟨Nat.le_refl _, fun _ _ => .inl rfl⟩

theorem trans (h : Persists s s') (h' : Persists s' s'') : Persists s s'' where
  size_le := h.size_le.trans h'.size_le
  kept id hlt := by
    rcases h'.kept id (hlt.trans_le h.size_le) with heq | hnone
    · rw [heq]
      exact h.kept id hlt
    · exact .inr hnone

theorem close (s : Snapshots) (id : SnapshotId) : Persists s (s.close id) where
  size_le := by simp [Snapshots.close]
  kept other _ := by
    rw [captured?_close]
    split
    · exact .inr rfl
    · exact .inl rfl

theorem closeAll (s : Snapshots) (ids : List SnapshotId) :
    Persists s (ids.foldl Snapshots.close s) := by
  induction ids generalizing s with
  | nil => exact .refl s
  | cons id ids ih => exact (close s id).trans (ih _)

theorem closeMap (s : Snapshots) (m : DeltaMap) : Persists s (m.close s) := closeAll s _

theorem closeQueue (s : Snapshots) (events : List QueuedEvent) :
    Persists s (events.foldl (fun s event => event.deltas.close s) s) := by
  induction events generalizing s with
  | nil => exact .refl s
  | cons event events ih => exact (closeMap s event.deltas).trans (ih _)

theorem schedule (d : Dispatcher) (event : QueuedEvent) :
    Persists d.snapshots (d.schedule event).snapshots := by
  unfold Dispatcher.schedule
  split
  · exact closeMap _ event.deltas
  · unfold Dispatcher.ensureWorker
    split
    · exact refl _
    · exact closeQueue _ _

theorem finish (t : DeltaTracker) (s : Snapshots) : Persists s (t.finish s).2.1 := by
  unfold DeltaTracker.finish
  split
  · exact .refl s
  · refine ⟨by simp [add], fun id hlt => .inl ?_⟩
    simp [add, captured?, Array.getElem?_push, Nat.ne_of_lt hlt]

theorem isClosed (h : Persists s s') {id : SnapshotId} (hlt : id.index < s.tables.size)
    (hc : s.isClosed id = true) : s'.isClosed id = true := by
  rw [Snapshots.isClosed, Option.isNone_iff_eq_none] at hc ⊢
  rcases h.kept id hlt with heq | hnone
  · rw [heq, hc]
  · exact hnone

theorem captured? (h : Persists s s') {id : SnapshotId} {captured : Captured}
    (hid : s.captured? id = some captured) (ho : s'.isClosed id = false) :
    s'.captured? id = some captured := by
  rcases h.kept id (index_lt_of_captured? hid) with heq | hnone
  · rw [heq, hid]
  · rw [Snapshots.isClosed, hnone] at ho
    cases ho

end Persists

theorem captured?_closeAll (s : Snapshots) (ids : List SnapshotId) (id : SnapshotId) :
    (ids.foldl close s).captured? id = if id ∈ ids then none else s.captured? id := by
  induction ids generalizing s with
  | nil => simp
  | cons other ids ih =>
    rw [List.foldl_cons, ih, captured?_close]
    by_cases h : id = other <;> simp [h]

theorem isClosed_close {m : DeltaMap} {entry : NamespaceDelta} {id : SnapshotId}
    (he : entry ∈ m.entries) (hid : entry.snapshot = some id) (s : Snapshots) :
    (m.close s).isClosed id = true := by
  have hmem : id ∈ m.entries.filterMap (·.snapshot) := List.mem_filterMap.2 ⟨entry, he, hid⟩
  rw [isClosed, DeltaMap.close, captured?_closeAll, if_pos hmem]
  rfl

end Snapshots

/-! ## Turns -/

namespace Registry

/-- One thing that happens to a registry. `workers` says whether the system starts a worker from now
on. The last two are the beginning of a stop, after which writes are refused, and its end for the
events that still wait. -/
inductive Turn : Registry → Registry → Prop
  | write (r : Registry) (w : Write) : Turn r (w.perform r)
  | host (r : Registry) (strategy : Strategy) : Turn r { r with strategy }
  | addListener (r : Registry) (listener : Listener) (filter : Option String) :
    Turn r (r.addListener listener filter)
  | removeListener (r : Registry) (listener : Listener) : Turn r (r.removeListener listener)
  | step (r : Registry) {r' : Registry} (h : r.step? = some r') : Turn r r'
  | reportCall (r : Registry) (result : CallResult) : Turn r (r.reportCall result)
  | close (r : Registry) (m : DeltaMap) : Turn r { r with dispatcher := r.dispatcher.close m }
  | workers (r : Registry) (startError : Option String) :
    Turn r { r with dispatcher := { r.dispatcher with startError } }
  | beginStop (r : Registry) (token : Option AccessToken) : Turn r (r.beginStop token).2
  | stopDispatcher (r : Registry) : Turn r r.stopDispatcher

def Run (r r' : Registry) : Prop := Relation.ReflTransGen Turn r r'

open Snapshots (Persists)

variable {r r' : Registry}

theorem persists_fire (r : Registry) (listeners : List ListenerInfo) (deltas : DeltaMap) :
    Persists r.dispatcher.snapshots (r.fire listeners deltas).dispatcher.snapshots := by
  rw [dispatcher_fire]
  split
  · exact .refl _
  · split
    · exact .closeMap _ deltas
    · exact .schedule _ _

/-- After a write the snapshots are those at the end of its transaction, or closed. -/
theorem persists_perform {w : Write} {t : Transaction} (ht : w.transaction? r = some t) :
    Persists (t.tracker.finish r.dispatcher.snapshots).2.1
      (w.perform r).dispatcher.snapshots := by
  have hleaves := w.leaves_perform r
  rw [ht] at hleaves
  rw [hleaves.2]
  exact persists_fire { r with dispatcher := { r.dispatcher with
    snapshots := (t.tracker.finish r.dispatcher.snapshots).2.1 } } _ _

theorem snapshots_reportCall (r : Registry) (result : CallResult) :
    (r.reportCall result).dispatcher.snapshots = r.dispatcher.snapshots := by
  unfold reportCall
  split
  · rfl
  · dsimp only
    split <;> rfl

theorem persists_step (h : r.step? = some r') :
    Persists r.dispatcher.snapshots r'.dispatcher.snapshots := by
  unfold step? at h
  split at h
  · cases h
    rw [snapshots_reportCall]
    exact .refl _
  · cases h
  · split at h
    · rename_i delivery dispatcher hfinish
      have hsnapshots : Persists r.dispatcher.snapshots dispatcher.snapshots := by
        unfold Dispatcher.finish? at hfinish
        split at hfinish
        · split at hfinish
          · cases hfinish
            exact .closeMap _ _
          · cases hfinish
        · cases hfinish
      cases h
      split <;> exact hsnapshots
    · obtain ⟨dispatcher, htake, rfl⟩ := Option.map_eq_some_iff.1 h
      unfold Dispatcher.take? at htake
      split at htake
      · cases htake
        exact .refl _
      · cases htake

theorem Turn.persists (h : Turn r r') :
    Persists r.dispatcher.snapshots r'.dispatcher.snapshots := by
  cases h with
  | write w =>
    cases ht : w.transaction? r with
    | none =>
      have hleaves := w.leaves_perform r
      rw [ht] at hleaves
      rw [hleaves.2]
      exact .refl _
    | some t => exact (Persists.finish t.tracker _).trans (persists_perform ht)
  | host => exact .refl _
  | addListener listener filter =>
    unfold Registry.addListener
    split <;> exact .refl _
  | removeListener => exact .refl _
  | step hstep => exact persists_step hstep
  | reportCall result =>
    rw [snapshots_reportCall]
    exact .refl _
  | close m => exact .closeMap _ m
  | workers => exact .refl _
  | beginStop token =>
    unfold Registry.beginStop
    split <;> exact .refl _
  | stopDispatcher =>
    unfold Registry.stopDispatcher
    dsimp only
    split <;> exact .closeQueue _ _

theorem Run.persists (h : Run r r') :
    Persists r.dispatcher.snapshots r'.dispatcher.snapshots := by
  induction h with
  | refl => exact .refl _
  | tail _ hturn ih => exact ih.trans hturn.persists

end Registry

end PluginRegistry
