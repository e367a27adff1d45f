import Mathlib.Data.List.Chain
import PluginRegistry.Cache.Access

/-!
# The file systems that a publication passes through

A publication that is cut short leaves one of the file systems behind that it passes through. They
are listed here step by step (`Location.storeTrace`): each follows from the one before by a single
operation (`Location.isChain_storeTrace`), and the last is what the whole call leaves
(`Location.getLastD_storeTrace`). What every step keeps, all of them have
(`Chance.trace_invariant` and its companions). A crash in the middle of a write is none of its own:
it leaves what a write leaves that the device refuses half way.
-/

namespace PluginRegistry

namespace FileSystem

/-- What a single operation leads to; a refused one leads nowhere. -/
inductive Change (fs : FileSystem) : FileSystem → Prop
  | none : Change fs fs
  | makeDirectory {p : Path} {next : FileSystem} : fs.makeDirectory p = .ok next → Change fs next
  | createFile {p : Path} {next : FileSystem} : fs.createFile p = .ok next → Change fs next
  | writeFile {p : Path} {content : Bytes} {next : FileSystem} :
      fs.writeFile p content = .ok next → Change fs next
  | move {source target : Path} {next : FileSystem} :
      fs.move source target = .ok next → Change fs next
  | removeFile {p : Path} {next : FileSystem} : fs.removeFile p = .ok next → Change fs next
  | removeTree (p : Path) : Change fs (fs.removeTree p).1

theorem Change.attempt {fs : FileSystem} {result : Except FileError FileSystem}
    (h : ∀ next, result = .ok next → Change fs next) : Change fs (fs.attempt result).1 := by
  cases result with
  | error e => exact .none
  | ok next => exact h next rfl

theorem Change.ensureDirectory (fs : FileSystem) (p : Path) :
    Change fs (fs.ensureDirectory p).1 := by
  unfold FileSystem.ensureDirectory
  cases hmake : fs.makeDirectory p with
  | error e => exact .none
  | ok made => exact .makeDirectory hmake

theorem isChain_append {α : Type} {R : α → α → Prop} {a : α} {xs ys : List α}
    (hxs : (a :: xs).IsChain R) (hys : (xs.getLastD a :: ys).IsChain R) :
    (a :: (xs ++ ys)).IsChain R := by
  induction xs generalizing a with
  | nil => exact hys
  | cons x xs ih =>
    rw [List.getLastD_cons] at hys
    rw [List.isChain_cons_cons] at hxs
    exact List.isChain_cons_cons.mpr ⟨hxs.1, ih hxs.2 hys⟩

def lineageTrace (fs : FileSystem) : List Path → List FileSystem
  | [] => []
  | p :: above =>
    match fs.ensureDirectory p with
    | (fs, .error .notFound) =>
      fs :: match fs.makeLineage above with
        | (made, .ok _) => fs.lineageTrace above ++ [(made.ensureDirectory p).1]
        | _ => fs.lineageTrace above
    | (fs, _) => [fs]

theorem getLastD_lineageTrace (fs : FileSystem) (paths : List Path) :
    (fs.lineageTrace paths).getLastD fs = (fs.makeLineage paths).1 := by
  induction paths generalizing fs with
  | nil => rfl
  | cons p above ih =>
    rw [lineageTrace, makeLineage]
    rcases fs.ensureDirectory p with ⟨made, ⟨⟨⟩⟩ | ⟨u⟩⟩
    case error.notFound =>
      have habove := ih made
      dsimp only
      rw [List.getLastD_cons]
      generalize made.makeLineage above = done at habove ⊢
      obtain ⟨next, e | u⟩ := done
      · exact habove
      · exact List.getLastD_concat
    all_goals rfl

theorem makeLineage_mem_trace (fs : FileSystem) (paths : List Path) :
    (fs.makeLineage paths).1 ∈ fs :: fs.lineageTrace paths := by
  rw [← getLastD_lineageTrace]
  exact List.getLastD_mem_cons

theorem isChain_lineageTrace (fs : FileSystem) (paths : List Path) :
    (fs :: fs.lineageTrace paths).IsChain Change := by
  induction paths generalizing fs with
  | nil => exact .singleton fs
  | cons p above ih =>
    have hfirst := Change.ensureDirectory fs p
    rw [lineageTrace]
    generalize fs.ensureDirectory p = done at hfirst ⊢
    obtain ⟨made, ⟨⟨⟩⟩ | ⟨u⟩⟩ := done
    case error.notFound =>
      have habove := ih made
      have hlast := getLastD_lineageTrace made above
      dsimp only
      generalize made.makeLineage above = done at hlast ⊢
      obtain ⟨next, e | u⟩ := done
      · exact List.isChain_cons_cons.mpr ⟨hfirst, habove⟩
      · refine List.isChain_cons_cons.mpr ⟨hfirst, isChain_append habove ?_⟩
        rw [hlast]
        exact List.isChain_cons_cons.mpr ⟨Change.ensureDirectory next p, .singleton _⟩
    all_goals exact List.isChain_cons_cons.mpr ⟨hfirst, .singleton _⟩

theorem lineageTrace_invariant {P : FileSystem → Prop} {paths : List Path}
    (hstep : ∀ p ∈ paths, ∀ fs, P fs → P (ensureDirectory fs p).1) {fs : FileSystem} (h : P fs) :
    ∀ crash ∈ fs :: fs.lineageTrace paths, P crash := by
  induction paths generalizing fs with
  | nil => exact List.forall_mem_singleton.mpr h
  | cons p above ih =>
    have hp := hstep p List.mem_cons_self
    have hfirst := hp fs h
    have habove := fun {made} => @ih (fun q hq => hstep q (List.mem_cons_of_mem p hq)) made
    refine List.forall_mem_cons.mpr ⟨h, ?_⟩
    rw [lineageTrace]
    generalize fs.ensureDirectory p = done at hfirst ⊢
    obtain ⟨made, ⟨⟨⟩⟩ | ⟨u⟩⟩ := done
    case error.notFound =>
      have hlast := habove hfirst _ (made.makeLineage_mem_trace above)
      dsimp only
      generalize made.makeLineage above = done at hlast ⊢
      obtain ⟨next, e | u⟩ := done
      · exact habove hfirst
      · rw [← List.cons_append]
        exact List.forall_mem_append.mpr
          ⟨habove hfirst, List.forall_mem_singleton.mpr (hp next hlast)⟩
    all_goals exact List.forall_mem_singleton.mpr hfirst

end FileSystem

namespace Cache

theorem FileStep.change_run (files : FileSystem) (step : FileStep) :
    FileSystem.Change files (step.run files).1 := by
  cases step with
  | makeDirectory base name => exact .attempt fun next h => .makeDirectory h
  | createIn base name => exact .attempt fun next h => .createFile h
  | create p => exact .attempt fun next h => .writeFile h
  | write p content => exact .attempt fun next h => .writeFile h
  | sync p => exact .none
  | syncDirectory p => exact .none
  | move source target => exact .attempt fun next h => .move h
  | removeFile p => exact .attempt fun next h => .removeFile h
  | removeTree p => exact .removeTree p

namespace Chance

variable {chance : Chance} {phase : Phase}

/-! ## Single steps -/

theorem take_of {P : FileSystem → Prop} {files : FileSystem} {step : FileStep}
    (hrun : P (step.run files).1) (hbroken : ∀ written, P (step.breakOff files written))
    (chance : Chance) (phase : Phase) : P (chance.take phase files step).1 := by
  unfold take
  cases chance.refuses phase step with
  | none => exact hrun
  | some refusal => exact hbroken refusal.written

theorem change_take (chance : Chance) (phase : Phase) (files : FileSystem) (step : FileStep) :
    FileSystem.Change files (chance.take phase files step).1 := by
  refine take_of (step.change_run files) (fun written => ?_) chance phase
  cases step with
  | write p content => exact FileStep.change_run files (.write p (content.take written))
  | _ => exact .none

theorem of_take_ok {files next : FileSystem} {step : FileStep} {u : Unit}
    (h : chance.take phase files step = (next, .ok u)) : step.run files = (next, .ok ()) := by
  unfold take at h
  cases hrefuses : chance.refuses phase step with
  | none => rwa [hrefuses] at h
  | some refusal =>
    rw [hrefuses] at h
    cases h

/-! ## Several steps -/

theorem of_takeAll_cons {files last : FileSystem} {step : FileStep} {steps : List FileStep}
    (h : chance.takeAll phase files (step :: steps) = (last, .ok ())) :
    ∃ next, step.run files = (next, .ok ()) ∧ chance.takeAll phase next steps = (last, .ok ()) := by
  rw [takeAll] at h
  generalize htake : chance.take phase files step = done at h
  obtain ⟨next, e | u⟩ := done
  · cases h
  · exact ⟨next, of_take_ok htake, h⟩

theorem takeAll_append (chance : Chance) (phase : Phase) (files : FileSystem)
    (first second : List FileStep) :
    chance.takeAll phase files (first ++ second) =
      match chance.takeAll phase files first with
      | (files, .ok _) => chance.takeAll phase files second
      | refused => refused := by
  induction first generalizing files with
  | nil => rfl
  | cons step steps ih =>
    rw [List.cons_append, takeAll, takeAll]
    rcases chance.take phase files step with ⟨next, e | u⟩
    · rfl
    · exact ih next

theorem of_takeAll_append {files last : FileSystem} {first second : List FileStep}
    (h : chance.takeAll phase files (first ++ second) = (last, .ok ())) :
    ∃ next, chance.takeAll phase files first = (next, .ok ()) ∧
      chance.takeAll phase next second = (last, .ok ()) := by
  rw [takeAll_append] at h
  generalize chance.takeAll phase files first = done at h
  obtain ⟨next, e | ⟨⟨⟩⟩⟩ := done
  · cases h
  · exact ⟨next, rfl, h⟩

theorem of_takeOrUndo_ok {files last : FileSystem} {steps : List FileStep} {undo : FileStep}
    {base : Path} (h : chance.takeOrUndo phase files steps undo base = (last, .ok ())) :
    chance.takeAll phase files steps = (last, .ok ()) ∧
      FileStep.run last (.syncDirectory base) = (last, .ok ()) := by
  unfold takeOrUndo at h
  generalize chance.takeAll phase files steps = done at h
  obtain ⟨next, e | ⟨⟨⟩⟩⟩ := done
  · cases h
  · obtain ⟨synced, hrun, hlast⟩ := of_takeAll_cons h
    cases hlast
    obtain ⟨rfl, -⟩ := Prod.ext_iff.1 hrun
    exact ⟨rfl, hrun⟩

/-- The file systems after each step, up to the first that is refused. -/
def trace (chance : Chance) (phase : Phase) (files : FileSystem) :
    List FileStep → List FileSystem
  | [] => []
  | step :: steps =>
    match chance.take phase files step with
    | (files, .ok _) => files :: chance.trace phase files steps
    | (files, .error _) => [files]

def traceEach (chance : Chance) (phase : Phase) (files : FileSystem) :
    List FileStep → List FileSystem
  | [] => []
  | step :: steps =>
    (chance.take phase files step).1 ::
      chance.traceEach phase (chance.take phase files step).1 steps

/-- The file systems after each step and after what is taken back when one is refused. -/
def traceOrUndo (chance : Chance) (phase : Phase) (files : FileSystem) (steps : List FileStep)
    (undo : FileStep) (base : Path) : List FileSystem :=
  chance.trace phase files steps ++
    match chance.takeAll phase files steps with
    | (files, .error _) => [(chance.take .undo files undo).1]
    | (files, .ok _) => chance.trace phase files [.syncDirectory base]

theorem getLastD_append {α : Type} (xs ys : List α) (a : α) :
    (xs ++ ys).getLastD a = ys.getLastD (xs.getLastD a) := by
  induction xs generalizing a with
  | nil => rfl
  | cons x xs ih => rw [List.cons_append, List.getLastD_cons, List.getLastD_cons, ih]

theorem getLastD_trace (chance : Chance) (phase : Phase) (files : FileSystem)
    (steps : List FileStep) :
    (chance.trace phase files steps).getLastD files = (chance.takeAll phase files steps).1 := by
  induction steps generalizing files with
  | nil => rfl
  | cons step steps ih =>
    unfold trace takeAll
    rcases chance.take phase files step with ⟨next, e | u⟩
    · rfl
    · dsimp only
      rw [List.getLastD_cons, ih]

theorem takeAll_mem_trace (chance : Chance) (phase : Phase) (files : FileSystem)
    (steps : List FileStep) :
    (chance.takeAll phase files steps).1 ∈ files :: chance.trace phase files steps := by
  rw [← getLastD_trace]
  exact List.getLastD_mem_cons

theorem getLastD_traceEach (chance : Chance) (phase : Phase) (files : FileSystem)
    (steps : List FileStep) :
    (chance.traceEach phase files steps).getLastD files =
      (chance.takeEach phase files steps).1 := by
  induction steps generalizing files with
  | nil => rfl
  | cons step steps ih =>
    unfold traceEach takeEach
    rw [List.getLastD_cons, ih]
    rcases chance.take phase files step with ⟨next, e | u⟩ <;> rfl

theorem takeEach_mem_trace (chance : Chance) (phase : Phase) (files : FileSystem)
    (steps : List FileStep) :
    (chance.takeEach phase files steps).1 ∈ files :: chance.traceEach phase files steps := by
  rw [← getLastD_traceEach]
  exact List.getLastD_mem_cons

theorem getLastD_traceOrUndo (chance : Chance) (phase : Phase) (files : FileSystem)
    (steps : List FileStep) (undo : FileStep) (base : Path) :
    (chance.traceOrUndo phase files steps undo base).getLastD files =
      (chance.takeOrUndo phase files steps undo base).1 := by
  unfold traceOrUndo takeOrUndo
  rw [getLastD_append, getLastD_trace]
  rcases chance.takeAll phase files steps with ⟨next, e | u⟩
  · rfl
  · exact chance.getLastD_trace phase next _

theorem takeOrUndo_mem_trace (chance : Chance) (phase : Phase) (files : FileSystem)
    (steps : List FileStep) (undo : FileStep) (base : Path) :
    (chance.takeOrUndo phase files steps undo base).1 ∈
      files :: chance.traceOrUndo phase files steps undo base := by
  rw [← getLastD_traceOrUndo]
  exact List.getLastD_mem_cons

theorem isChain_trace (chance : Chance) (phase : Phase) (files : FileSystem)
    (steps : List FileStep) :
    (files :: chance.trace phase files steps).IsChain FileSystem.Change := by
  induction steps generalizing files with
  | nil => exact .singleton files
  | cons step steps ih =>
    have hfirst := chance.change_take phase files step
    rw [trace]
    generalize chance.take phase files step = done at hfirst ⊢
    obtain ⟨next, e | u⟩ := done
    · exact List.isChain_cons_cons.mpr ⟨hfirst, .singleton _⟩
    · exact List.isChain_cons_cons.mpr ⟨hfirst, ih next⟩

theorem isChain_traceEach (chance : Chance) (phase : Phase) (files : FileSystem)
    (steps : List FileStep) :
    (files :: chance.traceEach phase files steps).IsChain FileSystem.Change := by
  induction steps generalizing files with
  | nil => exact .singleton files
  | cons step steps ih =>
    exact List.isChain_cons_cons.mpr ⟨chance.change_take phase files step, ih _⟩

theorem isChain_traceOrUndo (chance : Chance) (phase : Phase) (files : FileSystem)
    (steps : List FileStep) (undo : FileStep) (base : Path) :
    (files :: chance.traceOrUndo phase files steps undo base).IsChain FileSystem.Change := by
  apply FileSystem.isChain_append (chance.isChain_trace phase files steps)
  rw [getLastD_trace]
  rcases chance.takeAll phase files steps with ⟨next, e | u⟩
  · exact List.isChain_cons_cons.mpr ⟨chance.change_take .undo next undo, .singleton _⟩
  · exact chance.isChain_trace phase next _

theorem trace_invariant {P : FileSystem → Prop} {steps : List FileStep}
    (hstep : ∀ step ∈ steps, ∀ files, P files → P (chance.take phase files step).1)
    {files : FileSystem} (h : P files) :
    ∀ crash ∈ files :: chance.trace phase files steps, P crash := by
  induction steps generalizing files with
  | nil => exact List.forall_mem_singleton.mpr h
  | cons step steps ih =>
    have hfirst := hstep step List.mem_cons_self files h
    have hrest := fun {next} => @ih (fun s hs => hstep s (List.mem_cons_of_mem step hs)) next
    refine List.forall_mem_cons.mpr ⟨h, ?_⟩
    rw [trace]
    generalize chance.take phase files step = done at hfirst ⊢
    obtain ⟨next, e | u⟩ := done
    · exact List.forall_mem_singleton.mpr hfirst
    · exact hrest hfirst

theorem traceEach_invariant {P : FileSystem → Prop} {steps : List FileStep}
    (hstep : ∀ step ∈ steps, ∀ files, P files → P (chance.take phase files step).1)
    {files : FileSystem} (h : P files) :
    ∀ crash ∈ files :: chance.traceEach phase files steps, P crash := by
  induction steps generalizing files with
  | nil => exact List.forall_mem_singleton.mpr h
  | cons step steps ih =>
    have hfirst := hstep step List.mem_cons_self files h
    exact List.forall_mem_cons.mpr
      ⟨h, ih (fun s hs => hstep s (List.mem_cons_of_mem step hs)) hfirst⟩

theorem trace_append (chance : Chance) (phase : Phase) (files : FileSystem)
    (first second : List FileStep) :
    chance.trace phase files (first ++ second) = chance.trace phase files first ++
      match chance.takeAll phase files first with
      | (files, .ok _) => chance.trace phase files second
      | _ => [] := by
  induction first generalizing files with
  | nil => rfl
  | cons step steps ih =>
    rw [List.cons_append, trace, trace, takeAll]
    rcases chance.take phase files step with ⟨next, e | u⟩
    · rfl
    · dsimp only
      rw [ih, List.cons_append]

theorem run_of_takeAll_ok {files last : FileSystem} {steps : List FileStep}
    (h : chance.takeAll phase files steps = (last, .ok ())) {step : FileStep}
    (hstep : step ∈ steps) : ∃ fs next, step.run fs = (next, .ok ()) := by
  induction steps generalizing files with
  | nil => exact absurd hstep List.not_mem_nil
  | cons first steps ih =>
    rw [takeAll] at h
    generalize htake : chance.take phase files first = done at h
    obtain ⟨next, e | ⟨⟨⟩⟩⟩ := done
    · cases h
    · rcases List.mem_cons.mp hstep with rfl | hstep
      · exact ⟨files, next, of_take_ok htake⟩
      · exact ih h hstep

end Chance

/-! ## Publications -/

def Plan.trace (chance : Chance) (plan : Plan) (files : FileSystem) : List FileSystem :=
  chance.traceOrUndo .stage files plan.stageSteps (.removeTree plan.stagingPath) plan.base ++
    match plan.stage chance files with
    | (_, .error _) => []
    | (files, .ok _) =>
      chance.traceOrUndo .commit files plan.commitSteps (.removeFile plan.temporaryPath)
          plan.base ++
        match plan.commit chance files with
        | (_, .error _) => []
        | (files, .ok _) => chance.traceEach .clean files plan.cleanSteps

def publishTrace (digest : DigestFunction) (chance : Chance) (files : FileSystem) (base : Path)
    (image : Image) : List FileSystem :=
  files.lineageTrace base.lineage ++
    match files.makeDirectories base with
    | (_, .error _) => []
    | (files, .ok _) =>
      match files.readDirectory base with
      | .error _ => []
      | .ok names => (Plan.make digest chance files base names image).trace chance files

/-- The file systems that storing an image passes through. -/
def Location.storeTrace (digest : DigestFunction) (chance : Chance) (l : Location)
    (files : FileSystem) (image : Image) : List FileSystem :=
  match l.target? with
  | none => []
  | some base => publishTrace digest chance files base image

open Chance (getLastD_append)

theorem Plan.getLastD_trace (chance : Chance) (plan : Plan) (files : FileSystem) :
    (plan.trace chance files).getLastD files = (plan.publish chance files).files := by
  unfold Plan.trace Plan.publish
  rw [getLastD_append, Chance.getLastD_traceOrUndo]
  change List.getLastD _ (plan.stage chance files).1 = _
  rcases plan.stage chance files with ⟨staged, e | u⟩
  · rfl
  · dsimp only
    rw [getLastD_append, Chance.getLastD_traceOrUndo]
    change List.getLastD _ (plan.commit chance staged).1 = _
    rcases plan.commit chance staged with ⟨committed, e | u⟩
    · rfl
    · exact chance.getLastD_traceEach .clean committed plan.cleanSteps

theorem Location.getLastD_storeTrace (digest : DigestFunction) (chance : Chance) (l : Location)
    (files : FileSystem) (image : Image) :
    (l.storeTrace digest chance files image).getLastD files =
      (l.store digest chance files image).1 := by
  unfold Location.storeTrace Location.store
  cases l.target? with
  | none => rfl
  | some base =>
    unfold publishTrace publish FileSystem.makeDirectories
    dsimp only
    rw [getLastD_append, FileSystem.getLastD_lineageTrace]
    rcases files.makeLineage base.lineage with ⟨made, e | u⟩
    · rfl
    · dsimp only
      cases made.readDirectory base with
      | error reason => rfl
      | ok names => exact Plan.getLastD_trace chance _ made

open FileSystem (Change isChain_append)

theorem Plan.isChain_trace (chance : Chance) (plan : Plan) (files : FileSystem) :
    (files :: plan.trace chance files).IsChain Change := by
  unfold Plan.trace
  apply isChain_append (chance.isChain_traceOrUndo .stage files plan.stageSteps _ _)
  rw [Chance.getLastD_traceOrUndo]
  change List.IsChain Change ((plan.stage chance files).1 :: _)
  rcases plan.stage chance files with ⟨staged, e | u⟩
  · exact .singleton staged
  · dsimp only
    apply isChain_append (chance.isChain_traceOrUndo .commit staged plan.commitSteps _ _)
    rw [Chance.getLastD_traceOrUndo]
    change List.IsChain Change ((plan.commit chance staged).1 :: _)
    rcases plan.commit chance staged with ⟨committed, e | u⟩
    · exact .singleton committed
    · exact chance.isChain_traceEach .clean committed plan.cleanSteps

theorem Location.isChain_storeTrace (digest : DigestFunction) (chance : Chance) (l : Location)
    (files : FileSystem) (image : Image) :
    (files :: l.storeTrace digest chance files image).IsChain Change := by
  unfold Location.storeTrace
  cases l.target? with
  | none => exact .singleton files
  | some base =>
    unfold publishTrace FileSystem.makeDirectories
    apply isChain_append (FileSystem.isChain_lineageTrace files base.lineage)
    rw [FileSystem.getLastD_lineageTrace]
    rcases files.makeLineage base.lineage with ⟨made, e | u⟩
    · exact .singleton made
    · dsimp only
      cases made.readDirectory base with
      | error reason => exact .singleton made
      | ok names => exact Plan.isChain_trace chance _ made

end Cache

end PluginRegistry
