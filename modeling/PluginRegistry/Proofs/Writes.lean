import PluginRegistry.Proofs.Purge
import PluginRegistry.Registry.Write

/-!
# All writes

`Write` lists the calls that change the store of a registry and `Write.perform` makes one. Each of
them either leaves the store alone or runs one transaction, in which declarations are taken in or a
contributor is taken out (`Write.transaction?`). `Store.Reachable` are the stores that writes lead
to from the empty one; they are settled as long as there are ids left.
-/

namespace PluginRegistry

namespace Transaction

def ingestAll (t : Transaction) (ps : List PreparedDeclaration) : Transaction :=
  ps.foldl (fun t p => (t.ingest p).2) t

theorem nextId_le_ingestAll (t : Transaction) (ps : List PreparedDeclaration) :
    t.objects.nextId ≤ (t.ingestAll ps).objects.nextId := by
  induction ps generalizing t with
  | nil => exact Nat.le_refl _
  | cons p ps ih => exact (nextId_le_ingest t p).trans (ih _)

theorem settled_ingestAll {t : Transaction} (h : t.objects.Settled)
    (ps : List PreparedDeclaration)
    (hn : (t.ingestAll ps).objects.nextId ≤ UInt32.size) : (t.ingestAll ps).objects.Settled := by
  induction ps generalizing t with
  | nil => exact h
  | cons p ps ih =>
    have hn' := (nextId_le_ingestAll (t.ingest p).2 ps).trans hn
    exact ih (settled_ingest h p hn').1 hn

end Transaction

namespace Registry

def begin (r : Registry) : Transaction where
  objects := r.objects
  tracker := .start (!r.listeners.isEmpty)
  log := r.log

/-- The transaction in which declarations are taken in, as it ends; `none` if it is not run. -/
def ingestion? (r : Registry) (declarations : List Declaration) : Option Transaction :=
  let (prepared, r) := r.prepareAll declarations
  if prepared.isEmpty || r.stopped then none
  else some (r.begin.ingestAll prepared)

end Registry

/-- A call that changes the store, with its arguments. -/
inductive Write
  | add (d : Declaration)
  | addAll (declarations : List Declaration)
  | remove (c : ContributorId)
  | createPoint (c : ContributorId) (localId label : String) (schema : Option String)
      (token : Option AccessToken)
  | createExtension (c : ContributorId) (localId : Option String) (label target : String)
      (content : List ElementDecl) (token : Option AccessToken)
  | addFromSource (read : Registry.DeclarationReader) (c : ContributorId) (source : Bytes)
      (name : String) (token : Option AccessToken)

namespace Write

/-- The registry after a write, whatever the answer was. -/
def perform (r : Registry) : Write → Registry
  | add d => (r.add d).2
  | addAll declarations => (r.addAll declarations).2
  | remove c => (r.remove c).2
  | createPoint c localId label schema token => (r.createPoint c localId label schema token).2
  | createExtension c localId label target content token =>
    (r.createExtension c localId label target content token).2
  | addFromSource read c source name token => (r.addFromSource read c source name token).2

/-- The transaction of a write as it ends; `none` if the write is refused or has nothing to do. -/
def transaction? (r : Registry) : Write → Option Transaction
  | add d => r.ingestion? [d]
  | addAll declarations => r.ingestion? declarations
  | remove c => if r.stopped then none else some (r.begin.removeContributor c).2
  | createPoint c localId label schema token =>
    match r.checkWriteAccess token .createExtensionPoint with
    | .error _ => none
    | .ok _ =>
      if localId = "" then none
      else r.ingestion? [{
        contributor := c, points := [{ localId, label := r.strategy.localize label, schema }] }]
  | createExtension c localId label target content token =>
    match r.checkWriteAccess token .createExtension with
    | .error _ => none
    | .ok _ =>
      if target = "" then none
      else r.ingestion? [{
        contributor := c
        extensions := [{
          localId, target
          label := r.strategy.localize label
          content := localizeAll r.strategy.localize content }] }]
  | addFromSource read c source name token =>
    match r.checkWriteAccess token .addFromSource with
    | .error _ => none
    | .ok _ =>
      match read c source name with
      | .error _ => none
      | .ok declaration => r.ingestion? [declaration]

end Write

namespace Registry

/-! ## What a write leaves -/

/-- `r'` is what a write on `r` leaves that ends its transaction with `t`, or runs none. -/
def Leaves (r : Registry) (t : Option Transaction) (r' : Registry) : Prop :=
  match t with
  | none => r'.objects = r.objects ∧ r'.dispatcher = r.dispatcher
  | some t =>
    let ended := t.tracker.finish r.dispatcher.snapshots
    r'.objects = t.objects ∧ r'.dispatcher =
      ({ r with dispatcher := { r.dispatcher with snapshots := ended.2.1 } }.fire r.listeners
        ended.1).dispatcher

/-- Two registries that differ at most in the log. -/
structure SameButLog (r r' : Registry) : Prop where
  objects_eq : r'.objects = r.objects
  dispatcher_eq : r'.dispatcher = r.dispatcher
  listeners_eq : r'.listeners = r.listeners
  stopped_eq : r'.stopped = r.stopped

theorem sameButLog_prepare (r : Registry) (d : Declaration) : SameButLog r (r.prepare d).2 := by
  unfold prepare
  split <;> exact ⟨rfl, rfl, rfl, rfl⟩

theorem sameButLog_prepareAll (r : Registry) (ds : List Declaration) :
    SameButLog r (r.prepareAll ds).2 := by
  induction ds generalizing r with
  | nil => exact ⟨rfl, rfl, rfl, rfl⟩
  | cons d ds ih =>
    have hd := sameButLog_prepare r d
    have hds := ih (r.prepare d).2
    exact ⟨hds.objects_eq.trans hd.objects_eq, hds.dispatcher_eq.trans hd.dispatcher_eq,
      hds.listeners_eq.trans hd.listeners_eq, hds.stopped_eq.trans hd.stopped_eq⟩

theorem objects_fire (r : Registry) (listeners : List ListenerInfo) (deltas : DeltaMap) :
    (r.fire listeners deltas).objects = r.objects := by
  unfold fire
  split
  · rfl
  · split <;> rfl

theorem dispatcher_fire (r : Registry) (listeners : List ListenerInfo) (deltas : DeltaMap) :
    (r.fire listeners deltas).dispatcher =
      if deltas.isEmpty then r.dispatcher
      else if listeners.isEmpty then r.dispatcher.close deltas
      else r.dispatcher.schedule { listeners, deltas } := by
  unfold fire
  split
  · rfl
  · split <;> rfl

theorem leaves_transact {α : Type} {r r' : Registry} (h : SameButLog r r')
    (write : Transaction → α × Transaction) :
    Leaves r (if r'.stopped then none else some (write r'.begin).2) (r'.transact write).2 := by
  unfold transact
  cases hs : r'.stopped with
  | true => exact ⟨h.objects_eq, h.dispatcher_eq⟩
  | false =>
    simp only [Bool.false_eq_true, if_false, Leaves, begin, objects_fire, dispatcher_fire,
      h.dispatcher_eq, h.listeners_eq]
    exact ⟨trivial, trivial⟩

theorem leaves_addAll (r : Registry) (ds : List Declaration) :
    Leaves r (r.ingestion? ds) (r.addAll ds).2 := by
  have h := sameButLog_prepareAll r ds
  unfold addAll ingestion?
  simp only
  cases hp : (r.prepareAll ds).1.isEmpty with
  | true => exact ⟨h.objects_eq, h.dispatcher_eq⟩
  | false =>
    simp only [Bool.false_or, Bool.false_eq_true, if_false]
    exact leaves_transact h fun t =>
      ((), (r.prepareAll ds).1.foldl (fun t p => (t.ingest p).2) t)

theorem leaves_ingestOne (r : Registry) (d : Declaration) :
    Leaves r (r.ingestion? [d]) (r.ingestOne d).2 := by
  have h := sameButLog_prepare r d
  unfold ingestion? ingestOne
  simp only [prepareAll]
  obtain ⟨prepared, r', hp⟩ : ∃ prepared r', r.prepare d = (prepared, r') := ⟨_, _, rfl⟩
  simp only [hp] at h ⊢
  cases prepared with
  | none => exact ⟨h.objects_eq, h.dispatcher_eq⟩
  | some p => exact leaves_transact h fun t => (some (t.ingest p).1, (t.ingest p).2)

end Registry

namespace Write

open Registry (Leaves)

theorem leaves_perform (r : Registry) (w : Write) : Leaves r (w.transaction? r) (w.perform r) := by
  have refused : ∀ r' : Registry, r'.objects = r.objects → r'.dispatcher = r.dispatcher →
      Leaves r none r' := fun _ ho hd => ⟨ho, hd⟩
  cases w with
  | add d => exact Registry.leaves_addAll r [d]
  | addAll declarations => exact Registry.leaves_addAll r declarations
  | remove c =>
    exact Registry.leaves_transact ⟨rfl, rfl, rfl, rfl⟩ fun t => t.removeContributor c
  | createPoint c localId label schema token =>
    simp only [transaction?, perform, Registry.createPoint]
    cases r.checkWriteAccess token .createExtensionPoint with
    | error e => exact refused r rfl rfl
    | ok _ =>
      by_cases hid : localId = ""
      · simp only [hid, if_true]
        exact refused r rfl rfl
      · simp only [hid, if_false]
        exact Registry.leaves_ingestOne r _
  | createExtension c localId label target content token =>
    simp only [transaction?, perform, Registry.createExtension]
    cases r.checkWriteAccess token .createExtension with
    | error e => exact refused r rfl rfl
    | ok _ =>
      by_cases ht : target = ""
      · simp only [ht, if_true]
        exact refused r rfl rfl
      · simp only [ht, if_false]
        exact Registry.leaves_ingestOne r _
  | addFromSource read c source name token =>
    simp only [transaction?, perform, Registry.addFromSource]
    cases r.checkWriteAccess token .addFromSource with
    | error e => exact refused r rfl rfl
    | ok _ =>
      cases read c source name with
      | ok d => exact Registry.leaves_addAll r [d]
      | error problems => exact refused _ rfl rfl

theorem transaction?_cases {r : Registry} {w : Write} {t : Transaction}
    (h : w.transaction? r = some t) : ∃ t₀ : Transaction, t₀.objects = r.objects ∧
      t₀.tracker = .start (!r.listeners.isEmpty) ∧
      ((∃ prepared, t = t₀.ingestAll prepared) ∨ ∃ c, t = (t₀.removeContributor c).2) := by
  have ingestion : ∀ ds, r.ingestion? ds = some t → ∃ t₀ : Transaction,
      t₀.objects = r.objects ∧ t₀.tracker = .start (!r.listeners.isEmpty) ∧
        ((∃ prepared, t = t₀.ingestAll prepared) ∨ ∃ c, t = (t₀.removeContributor c).2) := by
    intro ds hds
    have hsame := Registry.sameButLog_prepareAll r ds
    simp only [Registry.ingestion?] at hds
    split at hds
    · cases hds
    · cases hds
      refine ⟨(r.prepareAll ds).2.begin, hsame.objects_eq, ?_, .inl ⟨_, rfl⟩⟩
      simp only [Registry.begin, hsame.listeners_eq]
  cases w with
  | add d => exact ingestion [d] h
  | addAll declarations => exact ingestion declarations h
  | remove c =>
    simp only [transaction?] at h
    split at h
    · cases h
    · cases h
      exact ⟨r.begin, rfl, rfl, .inr ⟨c, rfl⟩⟩
  | createPoint c localId label schema token =>
    simp only [transaction?] at h
    split at h
    · cases h
    · split at h
      · cases h
      · exact ingestion _ h
  | createExtension c localId label target content token =>
    simp only [transaction?] at h
    split at h
    · cases h
    · split at h
      · cases h
      · exact ingestion _ h
  | addFromSource read c source name token =>
    simp only [transaction?] at h
    split at h
    · cases h
    · split at h
      · cases h
      · exact ingestion _ h

/-! ## Settled stores stay settled -/

theorem nextId_le_perform (r : Registry) (w : Write) :
    r.objects.nextId ≤ (w.perform r).objects.nextId := by
  have h := w.leaves_perform r
  cases ht : w.transaction? r with
  | none =>
    rw [ht] at h
    rw [h.1]
  | some t =>
    rw [ht] at h
    obtain ⟨t₀, hobjects, -, ⟨prepared, rfl⟩ | ⟨c, rfl⟩⟩ := transaction?_cases ht
    · rw [h.1, ← hobjects]
      exact Transaction.nextId_le_ingestAll t₀ prepared
    · rw [h.1, ← hobjects, Transaction.nextId_removeContributor]

theorem settled_perform {r : Registry} {w : Write} (h : r.objects.Settled)
    (hn : (w.perform r).objects.nextId ≤ UInt32.size) : (w.perform r).objects.Settled := by
  have hleaves := w.leaves_perform r
  cases ht : w.transaction? r with
  | none =>
    rw [ht] at hleaves
    rw [hleaves.1]
    exact h
  | some t =>
    rw [ht] at hleaves
    rw [hleaves.1] at hn ⊢
    obtain ⟨t₀, hobjects, -, ⟨prepared, rfl⟩ | ⟨c, rfl⟩⟩ := transaction?_cases ht
    · exact Transaction.settled_ingestAll (hobjects ▸ h) prepared hn
    · exact Transaction.settled_removeContributor (hobjects ▸ h) c

end Write

/-! ## Reachable stores -/

/-- The stores that writes lead to from the empty one. What else a registry has, its listeners and
its strategy for instance, may be different at each write. -/
inductive Store.Reachable : Store → Prop
  | empty : Reachable .empty
  | write (r : Registry) (w : Write) (h : Reachable r.objects) : Reachable (w.perform r).objects

theorem Store.Reachable.settled {s : Store} (h : s.Reachable) (hn : s.nextId ≤ UInt32.size) :
    s.Settled := by
  induction h with
  | empty => exact settled_empty
  | write r w _ ih =>
    exact Write.settled_perform (ih ((w.nextId_le_perform r).trans hn)) hn

/-! ## A sample -/

namespace Registry

/-- An empty registry with one listener, whose host knows two contributors. -/
def sample : Registry where
  settings := {}
  strategy := { namespaces := { entries := [(⟨1⟩, "ui"), (⟨2⟩, "tools")] } }
  cache := none
  token := none
  objects := .empty
  listeners := [⟨.host 0, none⟩]
  dispatcher := .empty
  filledFromCache := false
  stopped := false
  log := #[]

/-- The sample with an extension that waits for its point. -/
def sampleWaiting : Registry :=
  (Write.add { contributor := ⟨2⟩, extensions := [{ target := "ui.menu" }] }).perform sample

def samplePoint : Write := .add { contributor := ⟨1⟩, points := [{ localId := "menu" }] }

/-- The sample once the point exists. -/
def sampleLinked : Registry := samplePoint.perform sampleWaiting

end Registry

end PluginRegistry
