import PluginRegistry.Proofs.Ownership
import PluginRegistry.Proofs.Turns

/-!
# From the start of a registry to its stop

A `Life` is what a registry goes through while it is open. Only writes change its store, and one
that does leaves it marked (`Registry.Life.objects_eq_or_dirty`), whatever happens afterwards
(`Registry.Changes.dirty`).
-/

namespace PluginRegistry

namespace Store

variable {s : Store}

theorem Owns.mark {c : ContributorId} {kind : ObjectKind} {ids : List ObjectId}
    (h : s.Owns c kind ids) (b : Bool) : (s.mark b).Owns c kind ids := ⟨h.nodup, h.live⟩

theorem Whole.mark (h : s.Whole) (b : Bool) : (s.mark b).Whole where
  settled :=
    { sound := ⟨h.settled.sound.id_eq, h.settled.sound.index_iff⟩
      typed := ⟨h.settled.typed.points, h.settled.typed.extensions, h.settled.typed.content⟩
      linked := fun u =>
        ⟨(h.settled.linked u).lit, (h.settled.linked u).unlit, (h.settled.linked u).parked⟩ }
  rooted := ⟨h.rooted.child, h.rooted.parent⟩
  listed :=
    { contributors_nodup := h.listed.contributors_nodup
      points := fun c hc => (h.listed.points c hc).mark b
      extensions := fun c hc => (h.listed.extensions c hc).mark b }

end Store

namespace Registry

variable {r r' : Registry}

/-! ## What turns leave alone -/

theorem addListener_frame (r : Registry) (listener : Listener) (filter : Option String) :
    (r.addListener listener filter).settings = r.settings ∧
      (r.addListener listener filter).strategy = r.strategy ∧
      (r.addListener listener filter).cache = r.cache ∧
      (r.addListener listener filter).objects = r.objects := by
  unfold addListener
  split <;> exact ⟨rfl, rfl, rfl, rfl⟩

theorem stopDispatcher_frame (r : Registry) : r.stopDispatcher.settings = r.settings ∧
    r.stopDispatcher.strategy = r.strategy ∧ r.stopDispatcher.cache = r.cache ∧
      r.stopDispatcher.objects = r.objects := by
  unfold stopDispatcher
  dsimp only
  split <;> exact ⟨rfl, rfl, rfl, rfl⟩

theorem flush_frame (digest : DigestFunction) (chance : Cache.Chance) (r : Registry)
    (files : FileSystem) :
    (r.flush digest chance files).1.strategy = r.strategy ∧
      (r.flush digest chance files).1.listeners = r.listeners ∧
      (r.flush digest chance files).1.dispatcher = r.dispatcher ∧
      (r.flush digest chance files).1.stopped = r.stopped ∧
      ∃ b, (r.flush digest chance files).1.objects = r.objects.mark b := by
  unfold flush
  split
  · exact ⟨rfl, rfl, rfl, rfl, _, rfl⟩
  · dsimp only
    split
    · exact ⟨rfl, rfl, rfl, rfl, _, rfl⟩
    · split
      · exact ⟨rfl, rfl, rfl, rfl, _, rfl⟩
      · split
        · dsimp only
          split <;> exact ⟨rfl, rfl, rfl, rfl, _, rfl⟩
        · exact ⟨rfl, rfl, rfl, rfl, _, rfl⟩

theorem finishStop_frame (digest : DigestFunction) (chance : Cache.Chance) (r : Registry)
    (files : FileSystem) :
    (r.finishStop digest chance files).1.strategy = r.strategy ∧
      (r.finishStop digest chance files).1.listeners = r.listeners ∧
      (r.finishStop digest chance files).1.dispatcher = r.dispatcher.stop ∧
      (r.finishStop digest chance files).1.stopped = r.stopped ∧
      ∃ b, (r.finishStop digest chance files).1.objects = r.objects.mark b := by
  have hstop : r.stopDispatcher.strategy = r.strategy ∧ r.stopDispatcher.listeners = r.listeners ∧
      r.stopDispatcher.dispatcher = r.dispatcher.stop ∧ r.stopDispatcher.stopped = r.stopped ∧
      r.stopDispatcher.objects = r.objects := by
    unfold stopDispatcher
    dsimp only
    split <;> exact ⟨rfl, rfl, rfl, rfl, rfl⟩
  have hflush := flush_frame digest chance r.stopDispatcher files
  rw [hstop.1, hstop.2.1, hstop.2.2.1, hstop.2.2.2.1, hstop.2.2.2.2] at hflush
  exact hflush

theorem sameButLog_clearCache (chance : Cache.Chance) (r : Registry) (files : FileSystem) :
    r.SameButLog (r.clearCache chance files).2.1 := by
  unfold clearCache
  split
  · exact ⟨rfl, rfl, rfl, rfl⟩
  · dsimp only
    split <;> exact ⟨rfl, rfl, rfl, rfl⟩

theorem reportCall_frame (r : Registry) (result : CallResult) :
    (r.reportCall result).settings = r.settings ∧ (r.reportCall result).cache = r.cache ∧
      (r.reportCall result).objects = r.objects := by
  unfold reportCall
  split
  · exact ⟨rfl, rfl, rfl⟩
  · dsimp only
    split <;> exact ⟨rfl, rfl, rfl⟩

theorem step_frame (h : r.step? = some r') :
    r'.settings = r.settings ∧ r'.cache = r.cache ∧ r'.objects = r.objects := by
  unfold step? at h
  split at h
  · cases h
    exact reportCall_frame _ _
  · cases h
  · split at h
    · cases h
      split <;> exact ⟨rfl, rfl, rfl⟩
    · obtain ⟨dispatcher, -, rfl⟩ := Option.map_eq_some_iff.1 h
      exact ⟨rfl, rfl, rfl⟩

/-- A turn leaves the settings and the place of the cache, and it leaves the store unless it is a
write. -/
theorem Turn.frame (h : Turn r r') : r'.settings = r.settings ∧ r'.cache = r.cache ∧
    (r'.objects = r.objects ∨ ∃ w : Write, r' = w.perform r) := by
  cases h with
  | write w =>
    have hkeeps := w.keeps_perform r
    exact ⟨hkeeps.settings_eq, hkeeps.cache_eq, .inr ⟨w, rfl⟩⟩
  | host => exact ⟨rfl, rfl, .inl rfl⟩
  | addListener listener filter =>
    obtain ⟨hsettings, -, hcache, hobjects⟩ := r.addListener_frame listener filter
    exact ⟨hsettings, hcache, .inl hobjects⟩
  | removeListener => exact ⟨rfl, rfl, .inl rfl⟩
  | step hstep =>
    obtain ⟨hsettings, hcache, hobjects⟩ := step_frame hstep
    exact ⟨hsettings, hcache, .inl hobjects⟩
  | reportCall result =>
    obtain ⟨hsettings, hcache, hobjects⟩ := reportCall_frame r result
    exact ⟨hsettings, hcache, .inl hobjects⟩
  | close m => exact ⟨rfl, rfl, .inl rfl⟩
  | workers => exact ⟨rfl, rfl, .inl rfl⟩
  | beginStop token =>
    unfold Registry.beginStop
    split <;> exact ⟨rfl, rfl, .inl rfl⟩
  | stopDispatcher =>
    obtain ⟨hsettings, -, hcache, hobjects⟩ := r.stopDispatcher_frame
    exact ⟨hsettings, hcache, .inl hobjects⟩

/-- A turn of a registry, or the moment when the host was told that it is open. -/
inductive Moment : Registry → Registry → Prop
  | turn {r r' : Registry} (h : Turn r r') : Moment r r'
  | opened (r : Registry) : Moment r r.opened

/-- What a registry goes through between its start and the end of its stop. -/
def Life (r r' : Registry) : Prop := Relation.ReflTransGen Moment r r'

theorem Moment.frame (h : Moment r r') : r'.settings = r.settings ∧ r'.cache = r.cache ∧
    (r'.objects = r.objects ∨ ∃ w : Write, r' = w.perform r) := by
  cases h with
  | turn h => exact h.frame
  | opened => exact ⟨rfl, rfl, .inl rfl⟩

theorem Moment.nextId_le (h : Moment r r') : r.objects.nextId ≤ r'.objects.nextId := by
  obtain ⟨-, -, hsame | ⟨w, rfl⟩⟩ := h.frame
  · rw [hsame]
  · exact w.nextId_le_perform r

namespace Life

theorem frame (h : Life r r') : r'.settings = r.settings ∧ r'.cache = r.cache := by
  induction h with
  | refl => exact ⟨rfl, rfl⟩
  | tail _ hmoment ih => exact ⟨hmoment.frame.1.trans ih.1, hmoment.frame.2.1.trans ih.2⟩

theorem nextId_le (h : Life r r') : r.objects.nextId ≤ r'.objects.nextId := by
  induction h with
  | refl => exact Nat.le_refl _
  | tail _ hmoment ih => exact ih.trans hmoment.nextId_le

theorem whole (h : Life r r') (hw : r.objects.Whole) (hn : r'.objects.nextId ≤ UInt32.size) :
    r'.objects.Whole := by
  induction h with
  | refl => exact hw
  | tail _ hmoment ih =>
    have hwhole := ih (hmoment.nextId_le.trans hn)
    obtain ⟨-, -, hsame | ⟨w, rfl⟩⟩ := hmoment.frame
    · rwa [hsame]
    · exact w.whole_perform hwhole hn

/-- The store stays as it was, or is marked. -/
theorem objects_eq_or_dirty (h : Life r r') (hw : r.objects.Whole)
    (hn : r'.objects.nextId ≤ UInt32.size) :
    r'.objects = r.objects ∨ r'.objects.dirty = true := by
  induction h with
  | refl => exact .inl rfl
  | @tail mid last hlife hmoment ih =>
    have hmid := hmoment.nextId_le.trans hn
    have hlast : last.objects = mid.objects ∨ last.objects.dirty = true := by
      obtain ⟨-, -, hsame | ⟨w, rfl⟩⟩ := hmoment.frame
      · exact .inl hsame
      · exact w.dirty_perform (whole hlife hw hmid).settled
    rcases hlast with hsame | hdirty
    · rw [hsame]
      exact ih hmid
    · exact .inr hdirty

end Life

/-- Some write on the way from one registry to another changed the store. -/
def Changes (r r' : Registry) : Prop :=
  ∃ (mid : Registry) (w : Write), r.Life mid ∧
    (w.perform mid).objects.toParts ≠ mid.objects.toParts ∧ (w.perform mid).Life r'

theorem Changes.dirty (h : r.Changes r') (hw : r.objects.Whole)
    (hn : r'.objects.nextId ≤ UInt32.size) : r'.objects.dirty = true := by
  obtain ⟨mid, w, hlife, hne, hrest⟩ := h
  have hnext := hrest.nextId_le.trans hn
  have hmid := hlife.whole hw ((w.nextId_le_perform mid).trans hnext)
  have hperform : (w.perform mid).objects.dirty = true :=
    (w.dirty_perform hmid.settled).resolve_left fun hsame => hne (by rw [hsame])
  rcases hrest.objects_eq_or_dirty (w.whole_perform hmid hnext) hn with hsame | hdirty
  · rw [hsame, hperform]
  · exact hdirty

end Registry

end PluginRegistry
