import PluginRegistry.Proofs.Changes
import PluginRegistry.Proofs.Marks

/-!
# What a write tells

The outcome of a write is its answer and its changes. Two registries that are alike, which means
that they have the same store up to the mark, the same listeners, strategy and access, give the
same outcomes to the same writes and stay alike (`Write.outcomes_eq`).
-/

namespace PluginRegistry

namespace Registry

/-! ## What writes leave alone -/

/-- Nothing but the store, the dispatcher and the log differs. -/
structure Keeps (r r' : Registry) : Prop where
  settings_eq : r'.settings = r.settings
  strategy_eq : r'.strategy = r.strategy
  cache_eq : r'.cache = r.cache
  token_eq : r'.token = r.token
  listeners_eq : r'.listeners = r.listeners
  filledFromCache_eq : r'.filledFromCache = r.filledFromCache
  stopped_eq : r'.stopped = r.stopped

namespace Keeps

variable {r r' r'' : Registry}

theorem refl (r : Registry) : Keeps r r := ⟨rfl, rfl, rfl, rfl, rfl, rfl, rfl⟩

theorem trans (h : Keeps r r') (h' : Keeps r' r'') : Keeps r r'' where
  settings_eq := h'.settings_eq.trans h.settings_eq
  strategy_eq := h'.strategy_eq.trans h.strategy_eq
  cache_eq := h'.cache_eq.trans h.cache_eq
  token_eq := h'.token_eq.trans h.token_eq
  listeners_eq := h'.listeners_eq.trans h.listeners_eq
  filledFromCache_eq := h'.filledFromCache_eq.trans h.filledFromCache_eq
  stopped_eq := h'.stopped_eq.trans h.stopped_eq

end Keeps

theorem keeps_fire (r : Registry) (listeners : List ListenerInfo) (deltas : DeltaMap) :
    Keeps r (r.fire listeners deltas) := by
  unfold fire
  split
  · exact .refl r
  · split <;> exact ⟨rfl, rfl, rfl, rfl, rfl, rfl, rfl⟩

theorem keeps_transact {α : Type} (r : Registry) (write : Transaction → α × Transaction) :
    Keeps r (r.transact write).2 := by
  unfold transact
  split
  · exact .refl r
  · dsimp only
    refine .trans ?_ (keeps_fire _ _ _)
    exact ⟨rfl, rfl, rfl, rfl, rfl, rfl, rfl⟩

theorem keeps_prepare (r : Registry) (d : Declaration) : Keeps r (r.prepare d).2 := by
  unfold prepare
  split <;> exact ⟨rfl, rfl, rfl, rfl, rfl, rfl, rfl⟩

theorem keeps_prepareAll (r : Registry) (ds : List Declaration) : Keeps r (r.prepareAll ds).2 := by
  induction ds generalizing r with
  | nil => exact .refl r
  | cons d ds ih => exact (keeps_prepare r d).trans (ih _)

theorem keeps_addAll (r : Registry) (ds : List Declaration) : Keeps r (r.addAll ds).2 := by
  unfold addAll
  dsimp only
  split
  · exact keeps_prepareAll r ds
  · exact (keeps_prepareAll r ds).trans (keeps_transact _ _)

theorem keeps_ingestOne (r : Registry) (d : Declaration) : Keeps r (r.ingestOne d).2 := by
  have h := keeps_prepare r d
  unfold ingestOne
  split
  · rename_i heq
    rwa [heq] at h
  · rename_i heq
    rw [heq] at h
    exact h.trans (keeps_transact _ _)

end Registry

theorem Write.keeps_perform (r : Registry) (w : Write) : r.Keeps (w.perform r) := by
  cases w with
  | add d => exact Registry.keeps_addAll r [d]
  | addAll declarations => exact Registry.keeps_addAll r declarations
  | remove c => exact Registry.keeps_transact r _
  | createPoint c localId label schema token =>
    simp only [perform, Registry.createPoint]
    split
    · exact .refl r
    · split
      · exact .refl r
      · exact Registry.keeps_ingestOne r _
  | createExtension c localId label target content token =>
    simp only [perform, Registry.createExtension]
    split
    · exact .refl r
    · split
      · exact .refl r
      · exact Registry.keeps_ingestOne r _
  | addFromSource read c source name token =>
    simp only [perform, Registry.addFromSource]
    split
    · exact .refl r
    · split
      · exact Registry.keeps_addAll r _
      · exact ⟨rfl, rfl, rfl, rfl, rfl, rfl, rfl⟩

namespace DeltaMap

/-- The changes of a map by namespace, without the number of the snapshot. -/
def changes (m : DeltaMap) : List (String × List ExtensionDelta) :=
  m.entries.map fun entry => (entry.ns, entry.deltas)

@[simp] theorem changes_withSnapshot (m : DeltaMap) (id : SnapshotId) :
    (m.withSnapshot id).changes = m.changes := by
  simp [changes, withSnapshot]

theorem changes_finish (t : DeltaTracker) (snapshots : Snapshots) :
    (t.finish snapshots).1.changes = t.deltas.changes := by
  rcases Write.finish_deltas t snapshots with ⟨he, hf⟩ | ⟨-, id, hf, -⟩
  · rw [hf, he]
  · rw [hf, changes_withSnapshot]

end DeltaMap

/-! ## Registries that are alike -/

namespace Registry

/-- The same store up to the mark, the same listeners, strategy and access. -/
structure Alike (r r' : Registry) : Prop where
  objects : ∃ b, r'.objects = r.objects.mark b
  modifiable_eq : r'.settings.modifiable = r.settings.modifiable
  strategy_eq : r'.strategy = r.strategy
  token_eq : r'.token = r.token
  listeners_eq : r'.listeners = r.listeners
  stopped_eq : r'.stopped = r.stopped

namespace Alike

variable {r r' s s' : Registry}

theorem keeps (h : Alike r r') (hs : Keeps r s) (hs' : Keeps r' s')
    (hobjects : ∃ b, s'.objects = s.objects.mark b) : Alike s s' where
  objects := hobjects
  modifiable_eq := by rw [hs'.settings_eq, hs.settings_eq, h.modifiable_eq]
  strategy_eq := by rw [hs'.strategy_eq, hs.strategy_eq, h.strategy_eq]
  token_eq := by rw [hs'.token_eq, hs.token_eq, h.token_eq]
  listeners_eq := by rw [hs'.listeners_eq, hs.listeners_eq, h.listeners_eq]
  stopped_eq := by rw [hs'.stopped_eq, hs.stopped_eq, h.stopped_eq]

theorem begin_eq (h : Alike r r') : ∃ b log, r'.begin = r.begin.masked b log := by
  obtain ⟨b, hb⟩ := h.objects
  refine ⟨b, r'.log, ?_⟩
  rw [begin, hb, h.listeners_eq]
  rfl

theorem prepare (h : Alike r r') (d : Declaration) :
    (r'.prepare d).1 = (r.prepare d).1 ∧ Alike (r.prepare d).2 (r'.prepare d).2 := by
  have hkeeps := h.keeps (keeps_prepare r d) (keeps_prepare r' d)
  rw [(sameButLog_prepare r' d).objects_eq, (sameButLog_prepare r d).objects_eq] at hkeeps
  refine ⟨?_, hkeeps h.objects⟩
  unfold Registry.prepare
  rw [h.strategy_eq]
  cases r.strategy.namespaces.find? d.contributor <;> rfl

theorem prepareAll (h : Alike r r') (ds : List Declaration) :
    (r'.prepareAll ds).1 = (r.prepareAll ds).1 ∧
      Alike (r.prepareAll ds).2 (r'.prepareAll ds).2 := by
  induction ds generalizing r r' with
  | nil => exact ⟨rfl, h⟩
  | cons d ds ih =>
    obtain ⟨hd, hnext⟩ := h.prepare d
    obtain ⟨hds, hrest⟩ := ih hnext
    exact ⟨by simp only [Registry.prepareAll, hd, hds], hrest⟩

theorem transact (h : Alike r r') {α : Type} {write : Transaction → α × Transaction}
    (hwrite : ∀ t b log, Transaction.Agree (write t) (write (t.masked b log))) :
    (r'.transact write).1 = (r.transact write).1 := by
  obtain ⟨b, log, hbegin⟩ := h.begin_eq
  have hanswer : ∀ r : Registry, (r.transact write).1 =
      if r.stopped then .error .stopped else .ok (write r.begin).1 := by
    intro r
    unfold Registry.transact
    split <;> rfl
  rw [hanswer, hanswer, h.stopped_eq, hbegin, (hwrite r.begin b log).1]

theorem checkWriteAccess_eq (h : Alike r r') (token : Option AccessToken) (operation : Operation) :
    r'.checkWriteAccess token operation = r.checkWriteAccess token operation := by
  unfold Registry.checkWriteAccess
  rw [h.modifiable_eq, h.token_eq]

theorem addAll_eq (h : Alike r r') (ds : List Declaration) :
    (r'.addAll ds).1 = (r.addAll ds).1 := by
  obtain ⟨hprepared, hrest⟩ := h.prepareAll ds
  unfold Registry.addAll
  dsimp only
  rw [hprepared]
  split
  · rfl
  · exact hrest.transact fun t b log => ⟨rfl, t.agree_ingestAll b log _⟩

theorem ingestOne_eq (h : Alike r r') (d : Declaration) :
    (r'.ingestOne d).1 = (r.ingestOne d).1 := by
  obtain ⟨hprepared, hrest⟩ := h.prepare d
  obtain ⟨prepared, s, hp⟩ : ∃ prepared s, r.prepare d = (prepared, s) := ⟨_, _, rfl⟩
  obtain ⟨prepared', s', hp'⟩ : ∃ prepared s, r'.prepare d = (prepared, s) := ⟨_, _, rfl⟩
  rw [hp, hp'] at hprepared hrest
  cases hprepared
  unfold Registry.ingestOne
  rw [hp, hp']
  cases prepared with
  | none => rfl
  | some p =>
    refine hrest.transact fun t b log => ?_
    obtain ⟨hingested, htransaction⟩ := t.agree_ingest b log p
    exact ⟨congrArg some hingested, htransaction⟩

/-- Two transactions, if any, that are the same up to mark and log. -/
def SameRun (t t' : Option Transaction) : Prop := ∃ b log, t' = t.map (·.masked b log)

theorem ingestion?_eq (h : Alike r r') (ds : List Declaration) :
    SameRun (r.ingestion? ds) (r'.ingestion? ds) := by
  obtain ⟨hprepared, hrest⟩ := h.prepareAll ds
  obtain ⟨b, log, hbegin⟩ := hrest.begin_eq
  obtain ⟨b', log', hrun⟩ := Transaction.agree_ingestAll (r.prepareAll ds).2.begin b log
    (r.prepareAll ds).1
  refine ⟨b', log', ?_⟩
  unfold ingestion?
  dsimp only
  rw [hprepared, hrest.stopped_eq, hbegin, hrun]
  split <;> rfl

theorem transaction?_eq (h : Alike r r') (w : Write) :
    SameRun (w.transaction? r) (w.transaction? r') := by
  cases w with
  | add d => exact h.ingestion?_eq [d]
  | addAll declarations => exact h.ingestion?_eq declarations
  | remove c =>
    obtain ⟨b, log, hbegin⟩ := h.begin_eq
    obtain ⟨-, b', log', hrun⟩ := r.begin.agree_removeContributor b log c
    refine ⟨b', log', ?_⟩
    simp only [Write.transaction?]
    rw [h.stopped_eq, hbegin, hrun]
    split <;> rfl
  | createPoint c localId label schema token =>
    simp only [Write.transaction?, h.checkWriteAccess_eq, h.strategy_eq]
    split
    · exact ⟨false, #[], rfl⟩
    · split
      · exact ⟨false, #[], rfl⟩
      · exact h.ingestion?_eq _
  | createExtension c localId label target content token =>
    simp only [Write.transaction?, h.checkWriteAccess_eq, h.strategy_eq]
    split
    · exact ⟨false, #[], rfl⟩
    · split
      · exact ⟨false, #[], rfl⟩
      · exact h.ingestion?_eq _
  | addFromSource read c source name token =>
    simp only [Write.transaction?, h.checkWriteAccess_eq]
    split
    · exact ⟨false, #[], rfl⟩
    · split
      · exact ⟨false, #[], rfl⟩
      · exact h.ingestion?_eq _

end Alike

end Registry

/-! ## Outcomes -/

namespace Write

/-- What the caller of a write is told: a refusal, a truth value, or that it is done. -/
def answer (r : Registry) : Write → Except RegistryError (Option Bool)
  | add d => (r.add d).1.map fun _ => none
  | addAll declarations => (r.addAll declarations).1.map fun _ => none
  | remove c => (r.remove c).1.map some
  | createPoint c localId label schema token =>
    (r.createPoint c localId label schema token).1.map some
  | createExtension c localId label target content token =>
    (r.createExtension c localId label target content token).1.map some
  | addFromSource read c source name token =>
    (r.addFromSource read c source name token).1.map some

/-- The answer to a write and the changes its listeners are told of. -/
structure Outcome where
  answer : Except RegistryError (Option Bool)
  changes : List (String × List ExtensionDelta)

def outcome (r : Registry) (w : Write) : Outcome := ⟨w.answer r, (w.deltas r).changes⟩

def performAll (r : Registry) (ws : List Write) : Registry := ws.foldl perform r

def outcomes (r : Registry) : List Write → List Outcome
  | [] => []
  | w :: ws => w.outcome r :: outcomes (w.perform r) ws

variable {r r' : Registry}

theorem answer_eq (h : r.Alike r') (w : Write) : w.answer r' = w.answer r := by
  cases w with
  | add d => simp only [answer, Registry.add, h.addAll_eq]
  | addAll declarations => simp only [answer, h.addAll_eq]
  | remove c =>
    exact congrArg (Except.map some)
      (h.transact fun t b log => t.agree_removeContributor b log c)
  | createPoint c localId label schema token =>
    simp only [answer, Registry.createPoint, h.checkWriteAccess_eq, h.strategy_eq]
    split
    · rfl
    · split
      · rfl
      · simp only [h.ingestOne_eq]
  | createExtension c localId label target content token =>
    simp only [answer, Registry.createExtension, h.checkWriteAccess_eq, h.strategy_eq]
    split
    · rfl
    · split
      · rfl
      · simp only [h.ingestOne_eq]
  | addFromSource read c source name token =>
    simp only [answer, Registry.addFromSource, h.checkWriteAccess_eq]
    split
    · rfl
    · split
      · simp only [Registry.add, h.addAll_eq]
      · rfl

theorem outcome_eq (h : r.Alike r') (w : Write) :
    w.outcome r' = w.outcome r ∧ (w.perform r).Alike (w.perform r') := by
  obtain ⟨b, log, hrun⟩ := h.transaction?_eq w
  have hleaves := w.leaves_perform r
  have hleaves' := w.leaves_perform r'
  rw [hrun] at hleaves'
  have hkeeps := h.keeps (w.keeps_perform r) (w.keeps_perform r')
  unfold outcome deltas
  rw [answer_eq h, hrun]
  cases ht : w.transaction? r with
  | none =>
    rw [ht] at hleaves hleaves'
    refine ⟨rfl, hkeeps ?_⟩
    rw [hleaves.1, hleaves'.1]
    exact h.objects
  | some t =>
    rw [ht] at hleaves hleaves'
    refine ⟨?_, hkeeps ⟨b, ?_⟩⟩
    · simp only [Option.map_some, DeltaMap.changes_finish]
      rfl
    · rw [hleaves.1, hleaves'.1]
      rfl

theorem outcomes_eq (h : r.Alike r') (ws : List Write) :
    outcomes r' ws = outcomes r ws ∧ (performAll r ws).Alike (performAll r' ws) := by
  induction ws generalizing r r' with
  | nil => exact ⟨rfl, h⟩
  | cons w ws ih =>
    obtain ⟨hfirst, hnext⟩ := outcome_eq h w
    obtain ⟨hrest, hlast⟩ := ih hnext
    exact ⟨by simp only [outcomes, hfirst, hrest], hlast⟩

end Write

end PluginRegistry
