import PluginRegistry.Proofs.Notices

/-!
# After a stop

From the moment when a stop sets its flag, nothing changes what the store holds, and every write
that has something to do is refused (`Registry.Frozen`). When the stop is done, the dispatcher has
let go of all that waited and takes nothing any more, so whoever is called then is called for the
event that was in flight (`Dispatcher.Ends`). Both hold for good, whatever else is done with the
registry, and to stop it once more does nothing (`Registry.frozen_of_stop`).
-/

namespace PluginRegistry

/-! ## The dispatcher -/

namespace Dispatcher

variable {d d' : Dispatcher}

/-- The calls that are left of the event in flight, in order. -/
def callsLeft (d : Dispatcher) : List (ListenerInfo × ChangeEvent) :=
  d.inFlight.toList.flatMap fun delivery =>
    delivery.remaining.map fun info => (info, delivery.eventFor info)

theorem call?_eq_head? (d : Dispatcher) : d.call? = d.callsLeft.head? := by
  unfold call? callsLeft
  cases d.inFlight with
  | none => rfl
  | some delivery =>
    rw [Option.toList_some, List.flatMap_singleton, List.head?_map]
    exact Option.map_eq_bind.symm

theorem callsLeft_report (d : Dispatcher) (result : CallResult) :
    (d.report result).callsLeft = d.callsLeft.tail := by
  unfold report callsLeft
  cases d.inFlight with
  | none => rfl
  | some delivery =>
    simp only [Option.map_some, Option.toList_some, List.flatMap_singleton]
    unfold Delivery.report
    cases hremaining : delivery.remaining with
    | nil => rw [hremaining]; rfl
    | cons info remaining => cases result.error? <;> rfl

/-- The dispatcher `d'` is stopped and empty, and whom it still calls `d` had to call already. -/
structure Ends (d d' : Dispatcher) : Prop where
  stopped : d'.stopped = true
  queue : d'.queue = []
  calls : d'.callsLeft <:+ d.callsLeft

theorem ends_stop (d : Dispatcher) : Ends d d.stop := ⟨rfl, rfl, List.suffix_rfl⟩

namespace Ends

theorem stop (h : Ends d d') : Ends d d'.stop := ⟨rfl, rfl, h.calls⟩

theorem close (h : Ends d d') (m : DeltaMap) : Ends d (d'.close m) := ⟨h.stopped, h.queue, h.calls⟩

theorem report (h : Ends d d') (result : CallResult) : Ends d (d'.report result) where
  stopped := h.stopped
  queue := h.queue
  calls := by
    rw [callsLeft_report]
    exact (List.tail_suffix _).trans h.calls

theorem finish (h : Ends d d') {delivery : Delivery} {d'' : Dispatcher}
    (hfinish : d'.finish? = some (delivery, d'')) : Ends d d'' := by
  obtain ⟨-, -, rfl⟩ := finish?_eq_some hfinish
  exact ⟨h.stopped, h.queue, List.nil_suffix⟩

theorem take?_eq_none (h : Ends d d') : d'.take? = none := by
  unfold take?
  rw [h.stopped]
  cases d'.inFlight <;> rfl

end Ends

end Dispatcher

/-! ## What is refused -/

theorem Registry.prepareAll_ne_nil {r : Registry} {d : Declaration} {ds : List Declaration}
    (hd : d ∈ ds) (hns : (r.strategy.namespaces.find? d.contributor).isSome = true) :
    (r.prepareAll ds).1 ≠ [] := by
  induction ds generalizing r with
  | nil => cases hd
  | cons other ds ih =>
    change (r.prepare other).1.toList ++ ((r.prepare other).2.prepareAll ds).1 ≠ []
    rcases List.mem_cons.1 hd with rfl | hd
    · obtain ⟨ns, hns⟩ := Option.isSome_iff_exists.1 hns
      rw [prepare_fst, hns]
      exact List.cons_ne_nil _ _
    · refine List.append_ne_nil_of_right_ne_nil _ (ih hd ?_)
      rw [(keeps_prepare r other).strategy_eq]
      exact hns

namespace Write

/-- The write would do something: it takes a contributor out, or it passes its checks with a
declaration of a contributor that has a namespace. -/
def Admitted (r : Registry) (w : Write) : Prop :=
  (∃ c, w = .remove c) ∨
    ∃ d ∈ w.declarations r, (r.strategy.namespaces.find? d.contributor).isSome = true

variable {r : Registry} {w : Write}

theorem addAll_of_stopped (h : r.stopped = true) {d : Declaration} {ds : List Declaration}
    (hd : d ∈ ds) (hns : (r.strategy.namespaces.find? d.contributor).isSome = true) :
    (r.addAll ds).1 = .error .stopped := by
  rw [Registry.answer_addAll,
    List.isEmpty_eq_false_iff.2 (Registry.prepareAll_ne_nil hd hns), h]
  rfl

theorem ingestOne_of_stopped (h : r.stopped = true) {d : Declaration}
    (hns : (r.strategy.namespaces.find? d.contributor).isSome = true) :
    (r.ingestOne d).1 = .error .stopped := by
  obtain ⟨ns, hns⟩ := Option.isSome_iff_exists.1 hns
  rw [Registry.answer_ingestOne, Registry.prepare_fst, hns, h]
  rfl

theorem answer_of_stopped (h : r.stopped = true) (hw : w.Admitted r) :
    w.answer r = .error .stopped := by
  have hremove : ∀ c, (r.remove c).1 = .error .stopped := fun c => by
    rw [Registry.remove, Registry.answer_transact, h]
    rfl
  obtain ⟨c, rfl⟩ | ⟨d, hd, hns⟩ := hw
  · rw [answer, hremove]
    rfl
  · cases w with
    | add d' =>
      have hrefused : (r.addAll [d']).1 = .error .stopped := addAll_of_stopped h hd hns
      rw [answer, Registry.add, hrefused]
      rfl
    | addAll ds =>
      have hrefused : (r.addAll ds).1 = .error .stopped := addAll_of_stopped h hd hns
      rw [answer, hrefused]
      rfl
    | remove c => cases hd
    | createPoint c localId label schema token =>
      rw [declarations] at hd
      rw [answer, Registry.createPoint]
      cases hcheck : r.checkWriteAccess token .createExtensionPoint with
      | error e =>
        rw [hcheck] at hd
        cases hd
      | ok u =>
        rw [hcheck] at hd
        dsimp only at hd ⊢
        split_ifs at hd ⊢
        · cases hd
        · cases List.mem_singleton.1 hd
          rw [ingestOne_of_stopped h hns]
          rfl
    | createExtension c localId label target content token =>
      rw [declarations] at hd
      rw [answer, Registry.createExtension]
      cases hcheck : r.checkWriteAccess token .createExtension with
      | error e =>
        rw [hcheck] at hd
        cases hd
      | ok u =>
        rw [hcheck] at hd
        dsimp only at hd ⊢
        split_ifs at hd ⊢
        · cases hd
        · cases List.mem_singleton.1 hd
          rw [ingestOne_of_stopped h hns]
          rfl
    | addFromSource read c source name token =>
      rw [declarations] at hd
      rw [answer, Registry.addFromSource]
      cases hcheck : r.checkWriteAccess token .addFromSource with
      | error e =>
        rw [hcheck] at hd
        cases hd
      | ok u =>
        rw [hcheck] at hd
        dsimp only at hd ⊢
        cases hread : read c source name with
        | error problems =>
          rw [hread] at hd
          cases hd
        | ok declaration =>
          rw [hread] at hd
          dsimp only at hd ⊢
          rw [Registry.add, addAll_of_stopped h hd hns]
          rfl

theorem perform_of_stopped (h : r.stopped = true) (w : Write) :
    (w.perform r).objects = r.objects ∧ (w.perform r).dispatcher = r.dispatcher := by
  have hleaves := w.leaves_perform r
  rw [transaction?_of_stopped h] at hleaves
  exact hleaves

end Write

/-! ## What happens afterwards -/

namespace Registry

variable {r r' s s' : Registry} {files files' : FileSystem}

/-- One thing that happens to a registry and the files around it: a moment in its life, an attempt
to clear its cache, or what others do to the files. -/
inductive Act : Registry × FileSystem → Registry × FileSystem → Prop
  | moment {r r' : Registry} (files : FileSystem) (h : Moment r r') : Act (r, files) (r', files)
  | clearCache (r : Registry) (chance : Cache.Chance) (files : FileSystem) :
    Act (r, files) (r.clearCache chance files).2
  | others (r : Registry) (files files' : FileSystem) : Act (r, files) (r, files')

def Acts (x y : Registry × FileSystem) : Prop := Relation.ReflTransGen Act x y

/-- The registry `s` refuses writes and holds what `r` held. -/
structure Frozen (r s : Registry) : Prop where
  stopped : s.stopped = true
  objects : ∃ b, s.objects = r.objects.mark b

theorem stopped_reportCall (r : Registry) (result : CallResult) :
    (r.reportCall result).stopped = r.stopped := by
  unfold reportCall
  split
  · rfl
  · dsimp only
    split <;> rfl

theorem stopped_step (h : r.step? = some r') : r'.stopped = r.stopped := by
  unfold step? at h
  split at h
  · cases h
    exact stopped_reportCall _ _
  · cases h
  · split at h
    · cases h
      split <;> rfl
    · obtain ⟨dispatcher, -, rfl⟩ := Option.map_eq_some_iff.1 h
      rfl

theorem Turn.stopped (h : Turn r r') (hstopped : r.stopped = true) : r'.stopped = true := by
  cases h with
  | write w => exact (w.keeps_perform r).stopped_eq.trans hstopped
  | host => exact hstopped
  | addListener listener filter =>
    unfold Registry.addListener
    split <;> exact hstopped
  | removeListener => exact hstopped
  | step hstep => exact (stopped_step hstep).trans hstopped
  | reportCall result => exact (stopped_reportCall r result).trans hstopped
  | close m => exact hstopped
  | workers => exact hstopped
  | beginStop token =>
    unfold Registry.beginStop
    split
    · exact hstopped
    · rfl
  | stopDispatcher =>
    unfold Registry.stopDispatcher
    dsimp only
    split <;> exact hstopped

theorem Frozen.moment (h : Frozen r s) (hmoment : Moment s s') : Frozen r s' := by
  have hstopped : s'.stopped = true := by
    cases hmoment with
    | turn hturn => exact hturn.stopped h.stopped
    | opened => exact h.stopped
  obtain ⟨-, -, hsame | ⟨w, rfl⟩⟩ := hmoment.frame
  · exact ⟨hstopped, hsame ▸ h.objects⟩
  · exact ⟨hstopped, (Write.perform_of_stopped h.stopped w).1 ▸ h.objects⟩

theorem dispatcher_reportCall (r : Registry) (result : CallResult) :
    (r.reportCall result).dispatcher = r.dispatcher ∨
      (r.reportCall result).dispatcher = r.dispatcher.report result := by
  unfold reportCall
  split
  · exact .inl rfl
  · dsimp only
    split <;> exact .inr rfl

theorem ends_moment {d : Dispatcher} (hstopped : s.stopped = true) (h : d.Ends s.dispatcher)
    (hmoment : Moment s s') : d.Ends s'.dispatcher := by
  have hreport : ∀ (s : Registry) (result : CallResult), d.Ends s.dispatcher →
      d.Ends (s.reportCall result).dispatcher := by
    intro s result h
    rcases dispatcher_reportCall s result with heq | heq
    · exact heq ▸ h
    · exact heq ▸ h.report result
  cases hmoment with
  | opened => exact h
  | turn hturn =>
    cases hturn with
    | write w => exact (Write.perform_of_stopped hstopped w).2 ▸ h
    | host => exact h
    | addListener listener filter =>
      unfold Registry.addListener
      split <;> exact h
    | removeListener => exact h
    | reportCall result => exact hreport s result h
    | close m => exact h.close m
    | workers => exact ⟨h.stopped, h.queue, h.calls⟩
    | beginStop token =>
      unfold Registry.beginStop
      split <;> exact h
    | stopDispatcher =>
      unfold Registry.stopDispatcher
      dsimp only
      split <;> exact h.stop
    | step hstep =>
      unfold step? at hstep
      split at hstep
      · cases hstep
        exact hreport _ .success h
      · cases hstep
      · split at hstep
        · rename_i hfinish
          cases hstep
          split <;> exact h.finish hfinish
        · obtain ⟨dispatcher, htake, -⟩ := Option.map_eq_some_iff.1 hstep
          rw [h.take?_eq_none] at htake
          cases htake

variable {x y : Registry × FileSystem}

/-- From the flag on nothing changes what the store holds, and the flag stays. -/
theorem Frozen.acts (h : Frozen r x.1) (hacts : Acts x y) : Frozen r y.1 := by
  induction hacts with
  | refl => exact h
  | tail _ hact ih =>
    cases hact with
    | moment files hmoment => exact ih.moment hmoment
    | clearCache s chance files =>
      have hsame := sameButLog_clearCache chance s files
      exact ⟨hsame.stopped_eq.trans ih.stopped, hsame.objects_eq ▸ ih.objects⟩
    | others => exact ih

theorem Frozen.ends_acts {d : Dispatcher} (h : Frozen r x.1) (hends : d.Ends x.1.dispatcher)
    (hacts : Acts x y) : d.Ends y.1.dispatcher := by
  induction hacts with
  | refl => exact hends
  | tail hbefore hact ih =>
    cases hact with
    | moment files hmoment => exact ends_moment (h.acts hbefore).stopped ih hmoment
    | clearCache s chance files => exact (sameButLog_clearCache chance s files).dispatcher_eq ▸ ih
    | others => exact ih

/-! ## Stops -/

/-- A call to stop. `meanwhile` is what happens to the registry and the files between the moment
when it refuses writes and the end of the deliveries: what the host does when it is told, and what
others do beside it. -/
def stop (digest : DigestFunction) (chance : Cache.Chance) (r : Registry)
    (token : Option AccessToken) (meanwhile : Registry × FileSystem → Registry × FileSystem)
    (files : FileSystem) :
    Except RegistryError Unit × Registry × FileSystem :=
  match r.beginStop token with
  | (.error e, r) => (.error e, r, files)
  | (.ok false, r) => (.ok (), r, files)
  | (.ok true, r) =>
    let (r, files) := meanwhile (r, files)
    (.ok (), r.finishStop digest chance files)

theorem stop_of_error {digest : DigestFunction} {chance : Cache.Chance} {token : Option AccessToken}
    {meanwhile : Registry × FileSystem → Registry × FileSystem} {e : RegistryError}
    (h : r.stop digest chance token meanwhile files = (.error e, s, files')) :
    e = .unauthorized .stop ∧ s = r ∧ files' = files := by
  unfold stop beginStop at h
  cases hcheck : r.checkToken token .stop with
  | ok _ =>
    rw [hcheck] at h
    cases hstopped : r.stopped <;> rw [hstopped] at h <;> cases h
  | error e' =>
    rw [hcheck] at h
    cases h
    unfold checkToken at hcheck
    split at hcheck
    · cases hcheck
      exact ⟨rfl, rfl, rfl⟩
    · cases hcheck

theorem stop_of_stopped (hstopped : r.stopped = true) {token : Option AccessToken}
    (htoken : r.checkToken token .stop = .ok ()) (digest : DigestFunction)
    (chance : Cache.Chance) (meanwhile : Registry × FileSystem → Registry × FileSystem)
    (files : FileSystem) :
    r.stop digest chance token meanwhile files = (.ok (), r, files) := by
  have hsame : r.beginStop token = (.ok false, r) := by
    unfold beginStop
    rw [htoken]
    cases r
    cases hstopped
    rfl
  rw [stop, hsame]

theorem stop_of_running (hrunning : r.stopped = false) {token : Option AccessToken}
    (htoken : r.checkToken token .stop = .ok ()) (digest : DigestFunction)
    (chance : Cache.Chance) (meanwhile : Registry × FileSystem → Registry × FileSystem)
    (files : FileSystem) :
    r.stop digest chance token meanwhile files =
      (.ok (), (meanwhile ({ r with stopped := true }, files)).1.finishStop digest chance
        (meanwhile ({ r with stopped := true }, files)).2) := by
  unfold stop beginStop
  rw [htoken, hrunning]
  rfl

theorem checkToken_of_stop {digest : DigestFunction} {chance : Cache.Chance}
    {token : Option AccessToken}
    {meanwhile : Registry × FileSystem → Registry × FileSystem}
    (h : r.stop digest chance token meanwhile files = (.ok (), s, files')) :
    r.checkToken token .stop = .ok () := by
  unfold stop beginStop at h
  cases hcheck : r.checkToken token .stop with
  | error e =>
    rw [hcheck] at h
    cases h
  | ok _ => rfl

/-- A stop that is refused was called without the token and changes nothing. Once a stop of a
running registry has returned, whatever happens later: the store holds what it held when the stop
set the flag; every removal is refused, and so is every other write that passes its checks with a
declaration of a contributor that has a namespace; no write gives an event to the dispatcher, none
waits there, and a listener that is called is called for the event that was in flight when the stop
returned; and another stop with the token returns and leaves registry and files as they are. -/
theorem frozen_of_stop {digest : DigestFunction} {chance : Cache.Chance}
    {token : Option AccessToken}
    {meanwhile : Registry × FileSystem → Registry × FileSystem} {files₁ : FileSystem}
    {answer : Except RegistryError Unit} {ended : Registry}
    (hstop : r.stop digest chance token meanwhile files = (answer, ended, files₁)) :
    (∀ e, answer = .error e → e = .unauthorized .stop ∧ ended = r ∧ files₁ = files) ∧
    (answer = .ok () → r.stopped = false →
      Acts ({ r with stopped := true }, files) (meanwhile ({ r with stopped := true }, files)) →
      ∀ s files₂, Acts (ended, files₁) (s, files₂) →
        (∃ b, s.objects = r.objects.mark b) ∧
        (∀ w : Write, w.Admitted s → w.answer s = .error .stopped) ∧
        (∀ w : Write, (w.perform s).dispatcher = s.dispatcher) ∧
        s.dispatcher.queue = [] ∧
        (∀ call, s.dispatcher.call? = some call → call ∈ ended.dispatcher.callsLeft) ∧
        ∀ digest' chance' token' meanwhile', s.checkToken token' .stop = .ok () →
          s.stop digest' chance' token' meanwhile' files₂ = (.ok (), s, files₂)) := by
  refine ⟨fun e he => stop_of_error (he ▸ hstop), fun hok hrunning hmeanwhile s files₂ hlater => ?_⟩
  rw [hok] at hstop
  have hflag : Frozen r { r with stopped := true } := ⟨rfl, _, rfl⟩
  have hmid : Frozen r (meanwhile ({ r with stopped := true }, files)).1 := hflag.acts hmeanwhile
  obtain ⟨-, -, hdispatcher, hstopped, b, hobjects⟩ := finishStop_frame digest chance
    (meanwhile ({ r with stopped := true }, files)).1
    (meanwhile ({ r with stopped := true }, files)).2
  have hended : (meanwhile ({ r with stopped := true }, files)).1.finishStop digest chance
      (meanwhile ({ r with stopped := true }, files)).2 = (ended, files₁) :=
    congrArg Prod.snd ((stop_of_running hrunning (checkToken_of_stop hstop) digest chance
      meanwhile files).symm.trans hstop)
  rw [hended] at hdispatcher hstopped hobjects
  have hfrozen : Frozen r ended := by
    obtain ⟨b', hmark⟩ := hmid.objects
    refine ⟨hstopped.trans hmid.stopped, b, ?_⟩
    rw [hobjects, hmark]
    rfl
  have hends : ended.dispatcher.Ends ended.dispatcher := by
    rw [hdispatcher]
    exact (Dispatcher.ends_stop _).stop
  have hlast : Frozen r s := hfrozen.acts hlater
  have hquiet : ended.dispatcher.Ends s.dispatcher := hfrozen.ends_acts hends hlater
  refine ⟨hlast.objects, fun w hw => Write.answer_of_stopped hlast.stopped hw,
    fun w => (Write.perform_of_stopped hlast.stopped w).2, hquiet.queue, fun call hcall => ?_,
    fun digest' chance' _ meanwhile' htoken =>
      stop_of_stopped hlast.stopped htoken digest' chance' meanwhile' files₂⟩
  rw [Dispatcher.call?_eq_head?] at hcall
  exact hquiet.calls.subset (List.mem_of_mem_head? hcall)

/-- The sample when one event is being delivered and another waits. -/
def sampleBusy : Registry := ((Write.remove ⟨2⟩).perform sampleLinked).stepped

/-- What a stop of it leaves if the host tries to write meanwhile. -/
def sampleEnded : Registry :=
  ((samplePoint.perform { sampleBusy with stopped := true }).finishStop idleDigest .plain .empty).1

theorem frozen_sampleEnded :
    sampleBusy.dispatcher.queue.length = 1 ∧
    (sampleEnded.reportCall .success).dispatcher.queue = [] ∧
    sampleEnded.dispatcher.call?.isSome = true ∧
    (sampleEnded.reportCall .success).dispatcher.call? = none ∧
    (sampleEnded.reportCall .success).objects.toParts = sampleBusy.objects.toParts ∧
    (Write.remove ⟨1⟩).answer (sampleEnded.reportCall .success) = .error .stopped ∧
    samplePoint.answer (sampleEnded.reportCall .success) = .error .stopped ∧
    ∀ chance files, (sampleEnded.reportCall .success).stop idleDigest chance none id files =
      (.ok (), sampleEnded.reportCall .success, files) := by
  have hrunning : sampleBusy.stopped = false := by decide +kernel
  have htoken : sampleBusy.checkToken none .stop = .ok () := by decide +kernel
  have hstop := stop_of_running hrunning htoken idleDigest .plain
    (fun x => (samplePoint.perform x.1, x.2)) .empty
  have hfrozen := (frozen_of_stop hstop).2 rfl hrunning
    (.single (.moment .empty (.turn (.write _ samplePoint)))) (sampleEnded.reportCall .success)
  have hlater := fun files => hfrozen files
    ((Relation.ReflTransGen.single (.moment _ (.turn (.reportCall _ .success)))).tail
      (.others _ _ files))
  obtain ⟨⟨b, hobjects⟩, hrefused, -, hqueue, -, -⟩ := hlater .empty
  have hadd : samplePoint.Admitted (sampleEnded.reportCall .success) :=
    .inr ⟨_, List.mem_singleton_self _, by decide +kernel⟩
  refine ⟨by decide +kernel, hqueue, by decide +kernel, by decide +kernel, ?_,
    hrefused _ (.inl ⟨⟨1⟩, rfl⟩), hrefused _ hadd, fun chance files => ?_⟩
  · rw [hobjects]
    rfl
  · exact (hlater files).2.2.2.2.2 idleDigest chance none id (by decide +kernel)

end Registry

end PluginRegistry
