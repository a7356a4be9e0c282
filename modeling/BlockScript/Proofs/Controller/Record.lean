import BlockScript.Proofs.Controller.Independence
import BlockScript.Proofs.Controller.Standing
import BlockScript.Proofs.Controller.Trimming

/-!
# The log and the last result

The log is cleared when a run gets the scene, grows at each of its turns, and outlives it; the last
result is set only when a run is completed.  So the two tell of different runs most of the time, and
while a run waits for the scene the log is still that of the run before.  This file says what both
tell after any history.  Which run they tell of is read off the *chronicle* of the history: who got
the scene, who was completed, and in which order.

## What is here

* `Milestone` and `Session.chronicle` — the moments at which runs get the scene or are completed.
* `Session.Spares` — what everything keeps that does not take a run further; `Session.happen_cases`
  says that whatever happens spares the runs, or a run gets the scene, or a resting one goes on.
* `Session.Recorded` — how log, last result and runs are told by a chronicle.  This is the invariant
  (`Session.Recorded.happen`).
* `Session.grows_after` — the log only grows until the next run gets the scene.
* `Session.keepsRecords_after` — **the log is a beginning of what the run that cleared it would
  return undisturbed, and the last result is that of the run completed last.**
-/

set_option autoImplicit false
namespace BlockScript

variable {σ : Type}

/-! ## Chronicles -/

/-- What a history is remembered for. -/
inductive Milestone (σ : Type) where
  /-- A run of a program gets the scene, and finds it in some state. -/
  | acquired (run : Nat) (program : Program) (found : σ)
  /-- A run is completed. -/
  | completed (run : Nat) (result : RunResult)

namespace Milestone

/-- Who has got the scene, for which program, and how it was found. -/
def acquired? : Milestone σ → Option (Nat × Program × σ)
  | .acquired run program found => some (run, program, found)
  | .completed .. => none

/-- Who has been completed, and with which result. -/
def completed? : Milestone σ → Option (Nat × RunResult)
  | .acquired .. => none
  | .completed run result => some (run, result)

/-- The run that got the scene last. -/
def lastAcquired (chronicle : List (Milestone σ)) : Option (Nat × Program × σ) :=
  (chronicle.filterMap acquired?).getLast?

/-- The run that was completed last. -/
def lastCompleted (chronicle : List (Milestone σ)) : Option (Nat × RunResult) :=
  (chronicle.filterMap completed?).getLast?

section

variable (chronicle : List (Milestone σ)) (run : Nat) (program : Program) (found : σ)
  (result : RunResult)

@[simp] theorem lastAcquired_nil : lastAcquired ([] : List (Milestone σ)) = none := rfl

@[simp] theorem lastAcquired_append_acquired :
    lastAcquired (chronicle ++ [.acquired run program found]) = some (run, program, found) := by
  simp [lastAcquired, acquired?]

@[simp] theorem lastAcquired_append_completed :
    lastAcquired (chronicle ++ [.completed run result]) = lastAcquired chronicle := by
  simp [lastAcquired, acquired?]

@[simp] theorem lastCompleted_append_acquired :
    lastCompleted (chronicle ++ [.acquired run program found]) = lastCompleted chronicle := by
  simp [lastCompleted, completed?]

@[simp] theorem lastCompleted_append_completed :
    lastCompleted (chronicle ++ [.completed run result]) = some (run, result) := by
  simp [lastCompleted, completed?]

theorem lastAcquired_append_eq_none {more : List (Milestone σ)} :
    lastAcquired (chronicle ++ more) = none
      ↔ lastAcquired chronicle = none ∧ lastAcquired more = none := by
  simp only [lastAcquired, List.getLast?_eq_none_iff, List.filterMap_append,
    List.append_eq_nil_iff]

end

end Milestone

open Milestone

/-- A waiting run that goes on gets the scene if it is free. -/
def Task.acquisition (run : Nat) (controller : Controller σ) : Task → List (Milestone σ)
  | .waiting program =>
    if controller.holder.isNone then [.acquired run program controller.scene] else []
  | _ => []

/-- A run in flight that goes on is completed if it is answered then. -/
def Task.completion (run : Nat) (task task' : Task) : List (Milestone σ) :=
  match task' with
  | .answered (some result) => if task.inFlight then [.completed run result] else []
  | _ => []

namespace Session

/-- The milestones in one happening. -/
def milestones (scene : Scene σ) (session : Session σ) : Happening σ → List (Milestone σ)
  | .resume run =>
    match session.tasks[run]? with
    | none => []
    | some task =>
      task.acquisition run session.controller
        ++ task.completion run (session.controller.resume scene session.clock task).2
  | _ => []

/-- The milestones of a history, in order. -/
def chronicle (scene : Scene σ) (session : Session σ) : List (Happening σ) → List (Milestone σ)
  | [] => []
  | happening :: history =>
    session.milestones scene happening
      ++ chronicle scene (session.happen scene happening) history

variable (scene : Scene σ)

theorem chronicle_append (session : Session σ) (history more : List (Happening σ)) :
    session.chronicle scene (history ++ more)
      = session.chronicle scene history ++ (session.after scene history).chronicle scene more := by
  induction history generalizing session with
  | nil => rfl
  | cons happening history ih =>
    rw [List.cons_append, chronicle, chronicle, ih, after_cons, List.append_assoc]

theorem milestones_resume {session : Session σ} {run : Nat} {task : Task}
    (htask : session.tasks[run]? = some task) :
    session.milestones scene (.resume run)
      = task.acquisition run session.controller
        ++ task.completion run (session.controller.resume scene session.clock task).2 := by
  simp only [milestones, htask]

/-! ## Whatever happens -/

/-- What everything keeps that does not take a run further: the log, the last result, the scene
while a run has it, and the runs, unless one of them is aborted. -/
structure Spares (session session' : Session σ) : Prop where
  log : session'.controller.log = session.controller.log
  lastResult : session'.controller.lastResult = session.controller.lastResult
  pacing : session'.controller.pacing = session.controller.pacing
  scene : session.controller.heldByRun = true →
    session'.controller.scene = session.controller.scene
  tasks : ∀ (run : Nat) (task : Task), session.tasks[run]? = some task →
    session'.tasks[run]? = some task
      ∨ task.inFlight = true ∧ session'.tasks[run]? = some .cancelled
  holding : ∀ (run : Nat) (task : Task), session'.tasks[run]? = some task →
    task.holdsScene = true → session.tasks[run]? = some task

theorem Spares.refl (session : Session σ) : session.Spares session where
  log := rfl
  lastResult := rfl
  pacing := rfl
  scene _ := rfl
  tasks _ _ h := .inl h
  holding _ _ h _ := h

/-- A change of the controller alone spares the runs if it keeps the log, the last result, the
pacing, and the scene while a run has it. -/
theorem Spares.of_tasks_eq {session session' : Session σ} (htasks : session'.tasks = session.tasks)
    (hlog : session'.controller.log = session.controller.log)
    (hlast : session'.controller.lastResult = session.controller.lastResult)
    (hpacing : session'.controller.pacing = session.controller.pacing)
    (hscene : session.controller.heldByRun = true →
      session'.controller.scene = session.controller.scene) : session.Spares session' where
  log := hlog
  lastResult := hlast
  pacing := hpacing
  scene := hscene
  tasks _ _ h := .inl (htasks ▸ h)
  holding _ _ h _ := htasks ▸ h

theorem spares_request (session : Session σ) :
    session.Spares (session.happen scene .request) := by
  obtain ⟨running, hcontroller⟩ : ∃ running,
      (session.happen scene .request).controller = { session.controller with running } := by
    rw [happen, Controller.request]
    split
    · exact ⟨session.controller.running, rfl⟩
    · exact ⟨true, rfl⟩
  obtain ⟨new, hnew, htasks⟩ : ∃ new : Task, new.holdsScene = false
      ∧ (session.happen scene .request).tasks = session.tasks ++ [new] := by
    refine ⟨session.controller.request.2, ?_, rfl⟩
    rw [Controller.request]
    split <;> rfl
  constructor
  case pacing => rw [hcontroller]
  case log => rw [hcontroller]
  case lastResult => rw [hcontroller]
  case scene =>
    intro _
    rw [hcontroller]
  case tasks =>
    intro run task htask
    refine .inl ?_
    rw [htasks, List.getElem?_append_left (List.getElem?_eq_some_iff.1 htask).1, htask]
  case holding =>
    intro run task htask hholds
    rw [htasks] at htask
    by_cases hrun : run < session.tasks.length
    · rwa [List.getElem?_append_left hrun] at htask
    · -- The run is the one that has just been requested, and does not have the scene.
      rw [List.getElem?_append_right (by omega)] at htask
      obtain rfl := List.mem_singleton.1 (List.mem_of_getElem? htask)
      rw [hnew] at hholds
      exact absurd hholds (by decide)

theorem spares_abort (session : Session σ) (run : Nat) :
    session.Spares (session.happen scene (.abort run)) := by
  cases htask : session.tasks[run]? with
  | none =>
    rw [happen, changeRun_of_eq_none htask]
    exact .refl session
  | some task =>
    cases hflight : task.inFlight with
    | false =>
      rw [happen, changeRun_eq_self htask (abort_of_not_inFlight session.controller hflight)]
      exact .refl session
    | true =>
      obtain ⟨running, holder, habort⟩ : ∃ running holder, session.controller.abort task
          = ({ session.controller with running, holder }, .cancelled) := by
        cases task with
        | waiting program => exact ⟨_, _, rfl⟩
        | resting program execution wake => exact ⟨_, _, rfl⟩
        | answered result => simp [Task.inFlight] at hflight
        | cancelled => simp [Task.inFlight] at hflight
      rw [happen, changeRun_of_eq_some htask, habort]
      refine ⟨rfl, rfl, rfl, fun _ => rfl, fun other task' htask' => ?_,
        fun other task' htask' hholds => ?_⟩
      · by_cases hother : run = other
        · obtain rfl : task = task' := Option.some.inj (htask.symm.trans (hother ▸ htask'))
          refine .inr ⟨hflight, hother ▸ ?_⟩
          exact List.getElem?_set_self (List.getElem?_eq_some_iff.1 htask).1
        · exact .inl ((List.getElem?_set_ne hother).trans htask')
      · by_cases hother : run = other
        · have hself : (session.tasks.set run .cancelled)[other]? = some .cancelled :=
            hother ▸ List.getElem?_set_self (List.getElem?_eq_some_iff.1 htask).1
          obtain rfl := Option.some.inj (hself.symm.trans htask')
          exact absurd hholds (by decide)
        · exact (List.getElem?_set_ne hother).symm.trans htask'

/-- **Whatever happens spares the runs, or a run gets the scene, or a resting run goes on.** -/
theorem happen_cases (session : Session σ) (happening : Happening σ) :
    (session.milestones scene happening = [] ∧ session.Spares (session.happen scene happening))
    ∨ (∃ (run : Nat) (program : Program), happening = .resume run
      ∧ session.tasks[run]? = some (.waiting program) ∧ session.controller.holder = none
      ∧ session.controller.resume scene session.clock (.waiting program)
        = (session.controller.acquire scene session.clock).proceed scene session.clock program
            (.start program))
    ∨ (∃ (run : Nat) (program : Program) (execution : Execution) (wake : Nat),
      happening = .resume run
      ∧ session.tasks[run]? = some (.resting program execution wake)
      ∧ session.controller.resume scene session.clock (.resting program execution wake)
        = session.controller.proceed scene session.clock program execution) := by
  cases happening with
  | request => exact .inl ⟨rfl, spares_request scene session⟩
  | abort run => exact .inl ⟨rfl, spares_abort scene session run⟩
  | resume run =>
    cases htask : session.tasks[run]? with
    | none =>
      refine .inl ⟨by simp [milestones, htask], ?_⟩
      rw [happen, changeRun_of_eq_none htask]
      exact .refl session
    | some task =>
      obtain ⟨heq, hwaits⟩ | ⟨program, rfl, hholder, heq⟩ | ⟨program, execution, wake, rfl, heq⟩ :=
        session.controller.resume_cases scene session.clock task
      · refine .inl ⟨?_, ?_⟩
        · rw [milestones_resume scene htask, heq]
          cases task with
          | waiting program =>
            simp [Task.acquisition, Task.completion, hwaits program rfl]
          | resting program execution wake => rfl
          | answered result => cases result <;> rfl
          | cancelled => rfl
        · rw [happen, changeRun_eq_self htask heq]
          exact .refl session
      · exact .inr (.inl ⟨run, program, rfl, htask, hholder, heq⟩)
      · exact .inr (.inr ⟨run, program, execution, wake, rfl, htask, heq⟩)
  | elapse duration => exact .inl ⟨rfl, .of_tasks_eq rfl rfl rfl rfl fun _ => rfl⟩
  | setProgram program => exact .inl ⟨rfl, .of_tasks_eq rfl rfl rfl rfl fun _ => rfl⟩
  | take =>
    refine .inl ⟨rfl, ?_⟩
    rw [happen]
    split
    · exact .of_tasks_eq rfl rfl rfl rfl fun _ => rfl
    · exact .refl session
  | giveBack =>
    refine .inl ⟨rfl, ?_⟩
    rw [happen]
    split
    · exact .of_tasks_eq rfl rfl rfl rfl fun _ => rfl
    · exact .refl session
  | change change =>
    refine .inl ⟨rfl, ?_⟩
    rw [happen]
    split
    · exact .refl session
    · rename_i hheld
      refine .of_tasks_eq rfl rfl rfl rfl fun hrun => ?_
      exact absurd (Controller.heldByRun_iff.1 hrun) hheld
  | subscribe => exact .inl ⟨rfl, .of_tasks_eq rfl rfl rfl rfl fun _ => rfl⟩
  | drain receiver =>
    refine .inl ⟨rfl, ?_⟩
    rw [happen]
    split
    · exact .refl session
    · exact .of_tasks_eq rfl rfl rfl rfl fun _ => rfl

/-! ## What a chronicle tells -/

/-- Log, last result and runs are as a chronicle tells. -/
structure Recorded (chronicle : List (Milestone σ)) (session : Session σ) : Prop where
  /-- The log is empty as long as no run has got the scene. -/
  blank : lastAcquired chronicle = none → session.controller.log.snapshot = []
  /-- The run that got the scene last has left the log as it is. -/
  stands : ∀ run program found, lastAcquired chronicle = some (run, program, found) →
    ∃ task, session.tasks[run]? = some task
      ∧ task.Stands scene program (scene.reset found) session.controller
  /-- A run that has the scene got it last. -/
  holding : ∀ (run : Nat) (task : Task), session.tasks[run]? = some task →
    task.holdsScene = true → ∃ program found, lastAcquired chronicle = some (run, program, found)
  lastResult : session.controller.lastResult = (lastCompleted chronicle).map Prod.snd
  /-- A run that was completed, with nothing after it, got the scene last and is answered. -/
  completed : ∀ run result, chronicle.getLast? = some (.completed run result) →
    (∃ program found, lastAcquired chronicle = some (run, program, found))
      ∧ session.tasks[run]? = some (.answered (some result))
  /-- If the run that got the scene last is answered, nothing has come after that. -/
  answered : ∀ run program found result, lastAcquired chronicle = some (run, program, found) →
    session.tasks[run]? = some (.answered (some result)) →
      chronicle.getLast? = some (.completed run result)

section Recorded

variable {scene} {chronicle : List (Milestone σ)} {session session' : Session σ}

theorem recorded_opening (pacing : Pacing) (program : Program) (state : σ) :
    (opening pacing program state).Recorded scene [] where
  blank _ := rfl
  stands _ _ _ h := by simp at h
  holding _ _ h := by simp [opening] at h
  lastResult := rfl
  completed _ _ h := by simp at h
  answered _ _ _ _ h := by simp at h

/-- What spares the runs leaves a record as it is. -/
theorem Recorded.spares (h : session.Recorded scene chronicle) (horderly : session.Orderly)
    (hspares : session.Spares session') : session'.Recorded scene chronicle where
  blank hnone := by rw [hspares.log, h.blank hnone]
  stands run program found hlast := by
    obtain ⟨task, htask, hstands⟩ := h.stands run program found hlast
    rcases hspares.tasks run task htask with htask' | ⟨hflight, hcancelled⟩
    · refine ⟨task, htask', hstands.of_eq hspares.pacing hspares.log fun hholds => ?_⟩
      exact hspares.scene (horderly.heldByRun_of_holdsScene (List.mem_of_getElem? htask) hholds)
    · exact ⟨.cancelled, hcancelled, hstands.cancelled hflight hspares.pacing hspares.log⟩
  holding run task htask hholds := h.holding run task (hspares.holding run task htask hholds) hholds
  lastResult := by rw [hspares.lastResult, h.lastResult]
  completed run result hlast := by
    obtain ⟨hacquired, htask⟩ := h.completed run result hlast
    refine ⟨hacquired, (hspares.tasks run _ htask).resolve_right fun hcancelled => ?_⟩
    exact absurd hcancelled.1 (by simp [Task.inFlight])
  answered run program found result hlast htask := by
    obtain ⟨task, htask', -⟩ := h.stands run program found hlast
    rcases hspares.tasks run task htask' with hsame | ⟨-, hcancelled⟩
    · obtain rfl := Option.some.inj (hsame.symm.trans htask)
      exact h.answered run program found result hlast htask'
    · rw [hcancelled] at htask
      exact absurd htask (by simp)

variable {run : Nat} {program : Program} {found : σ} {controller : Controller σ}

/-- What is known of a run that goes on with the scene: it got the scene last, the last result is
that of a run before it, nobody else has the scene, and nothing has been completed since. -/
structure GoesOn (chronicle : List (Milestone σ)) (session : Session σ) (run : Nat)
    (program : Program) (found : σ) (controller : Controller σ) : Prop where
  lastAcquired : lastAcquired chronicle = some (run, program, found)
  lastResult : controller.lastResult = (lastCompleted chronicle).map Prod.snd
  length : run < session.tasks.length
  alone : ∀ (other : Nat) (task : Task), other ≠ run → session.tasks[other]? = some task →
    task.holdsScene = false
  incomplete : ∀ other result, chronicle.getLast? ≠ some (.completed other result)

/-- A run that goes on may come to rest. -/
theorem GoesOn.recorded_rest (h : GoesOn chronicle session run program found controller)
    {controller' : Controller σ} {execution : Execution} {wake : Nat}
    (hresult : controller'.lastResult = controller.lastResult)
    (hstands : (Task.resting program execution wake).Stands scene program (scene.reset found)
      controller') :
    Recorded scene chronicle
      { session with
        controller := controller'
        tasks := session.tasks.set run (.resting program execution wake) } where
  blank hnone := by
    rw [h.lastAcquired] at hnone
    exact absurd hnone (by simp)
  stands run' program' found' hlast := by
    obtain ⟨rfl, rfl, rfl⟩ : run = run' ∧ program = program' ∧ found = found' := by
      simpa using h.lastAcquired.symm.trans hlast
    exact ⟨_, List.getElem?_set_self h.length, hstands⟩
  holding other task htask hholds := by
    by_cases hother : run = other
    · exact ⟨program, found, hother ▸ h.lastAcquired⟩
    · rw [List.getElem?_set_ne hother] at htask
      rw [h.alone other task (Ne.symm hother) htask] at hholds
      exact absurd hholds (by decide)
  lastResult := hresult.trans h.lastResult
  completed run' result hlast := absurd hlast (h.incomplete run' result)
  answered run' program' found' result hlast htask := by
    obtain ⟨rfl, rfl, rfl⟩ : run = run' ∧ program = program' ∧ found = found' := by
      simpa using h.lastAcquired.symm.trans hlast
    simp only [List.getElem?_set_self h.length] at htask
    exact absurd htask (by simp)

/-- A run that goes on may be completed. -/
theorem GoesOn.recorded_complete (h : GoesOn chronicle session run program found controller)
    {controller' : Controller σ} {result : RunResult}
    (hresult : controller'.lastResult = some result)
    (hstands : (Task.answered (some result)).Stands scene program (scene.reset found)
      controller') :
    Recorded scene (chronicle ++ [.completed run result])
      { session with
        controller := controller'
        tasks := session.tasks.set run (.answered (some result)) } where
  blank hnone := by
    rw [lastAcquired_append_completed, h.lastAcquired] at hnone
    exact absurd hnone (by simp)
  stands run' program' found' hlast := by
    rw [lastAcquired_append_completed] at hlast
    obtain ⟨rfl, rfl, rfl⟩ : run = run' ∧ program = program' ∧ found = found' := by
      simpa using h.lastAcquired.symm.trans hlast
    exact ⟨_, List.getElem?_set_self h.length, hstands⟩
  holding other task htask hholds := by
    by_cases hother : run = other
    · subst hother
      exact ⟨program, found, by rw [lastAcquired_append_completed, h.lastAcquired]⟩
    · rw [List.getElem?_set_ne hother] at htask
      rw [h.alone other task (Ne.symm hother) htask] at hholds
      exact absurd hholds (by decide)
  lastResult := by rw [hresult, lastCompleted_append_completed]; rfl
  completed run' result' hlast := by
    obtain ⟨rfl, rfl⟩ : run = run' ∧ result = result' := by simpa using hlast
    exact ⟨⟨program, found, by rw [lastAcquired_append_completed, h.lastAcquired]⟩,
      List.getElem?_set_self h.length⟩
  answered run' program' found' result' hlast htask := by
    rw [lastAcquired_append_completed] at hlast
    obtain ⟨rfl, rfl, rfl⟩ : run = run' ∧ program = program' ∧ found = found' := by
      simpa using h.lastAcquired.symm.trans hlast
    simp only [List.getElem?_set_self h.length, Option.some.injEq, Task.answered.injEq] at htask
    rw [List.getLast?_concat, htask]

/-- **A run that goes on comes to rest or is completed**, and either way the record is right. -/
theorem GoesOn.recorded (h : GoesOn chronicle session run program found controller) (now : Nat)
    {task : Task} (hflight : task.inFlight = true) (execution : Execution)
    (hstands : (controller.proceed scene now program execution).2.Stands scene program
      (scene.reset found) (controller.proceed scene now program execution).1) :
    Recorded scene
      (chronicle ++ task.completion run (controller.proceed scene now program execution).2)
      { session with
        controller := (controller.proceed scene now program execution).1
        tasks := session.tasks.set run (controller.proceed scene now program execution).2 } := by
  obtain ⟨done, duration, execution', state, -, -, -, heq⟩ | ⟨course, result, -, -, heq⟩ :=
    controller.proceed_cases scene now program execution
  · rw [heq] at hstands ⊢
    simp only [Task.completion, List.append_nil]
    exact h.recorded_rest rfl hstands
  · rw [heq] at hstands ⊢
    rw [Task.completion, if_pos hflight]
    exact h.recorded_complete rfl hstands

/-- While a run is in flight no other run has the scene. -/
theorem Orderly.alone (h : session.Orderly) {task : Task} (htask : session.tasks[run]? = some task)
    (hflight : task.inFlight = true) (other : Nat) (task' : Task) (hne : other ≠ run)
    (hother : session.tasks[other]? = some task') : task'.holdsScene = false := by
  have hover := h.not_inFlight_of_ne htask hflight hne hother
  cases hholds : task'.holdsScene with
  | false => rfl
  | true => rw [Task.inFlight_of_holdsScene hholds] at hover; exact absurd hover (by decide)

/-- A run that gets the scene goes on. -/
theorem Recorded.goesOn_acquire (h : session.Recorded scene chronicle) (horderly : session.Orderly)
    (htask : session.tasks[run]? = some (.waiting program)) (now : Nat) :
    GoesOn (chronicle ++ [.acquired run program session.controller.scene]) session run program
      session.controller.scene (session.controller.acquire scene now) where
  lastAcquired := lastAcquired_append_acquired ..
  lastResult := by rw [lastCompleted_append_acquired]; exact h.lastResult
  length := (List.getElem?_eq_some_iff.1 htask).1
  alone := horderly.alone htask rfl
  incomplete other result hlast := by
    rw [List.getLast?_concat] at hlast
    exact absurd hlast (by simp)

/-- A resting run got the scene last, and goes on. -/
theorem Recorded.goesOn_resting (h : session.Recorded scene chronicle) (horderly : session.Orderly)
    {execution : Execution} {wake : Nat}
    (htask : session.tasks[run]? = some (.resting program execution wake)) :
    ∃ found, GoesOn chronicle session run program found session.controller
      ∧ (Task.resting program execution wake).Stands scene program (scene.reset found)
          session.controller := by
  obtain ⟨own, found, hlast⟩ := h.holding run _ htask rfl
  obtain ⟨task, htask', hstands⟩ := h.stands run own found hlast
  obtain rfl := Option.some.inj (htask.symm.trans htask')
  obtain rfl : program = own := hstands.1
  refine ⟨found, ⟨hlast, h.lastResult, (List.getElem?_eq_some_iff.1 htask).1,
    horderly.alone htask rfl, fun other result hcompleted => ?_⟩, hstands⟩
  -- A run that was completed last would be this one, and it is not.
  obtain ⟨⟨other', found', hlast'⟩, hanswered⟩ := h.completed other result hcompleted
  obtain ⟨rfl, -⟩ := Prod.mk.inj (Option.some.inj (hlast.symm.trans hlast'))
  rw [htask] at hanswered
  exact absurd hanswered (by simp)

/-- **Whatever happens keeps the record**, with the milestones that it adds. -/
theorem Recorded.happen (h : session.Recorded scene chronicle) (horderly : session.Orderly)
    (happening : Happening σ) :
    (session.happen scene happening).Recorded scene
      (chronicle ++ session.milestones scene happening) := by
  obtain ⟨hmilestones, hspares⟩ | ⟨run, program, rfl, htask, hholder, heq⟩ |
      ⟨run, program, execution, wake, rfl, htask, heq⟩ := happen_cases scene session happening
  · rw [hmilestones, List.append_nil]
    exact h.spares horderly hspares
  · have hacquisition : (Task.waiting program).acquisition run session.controller
        = [.acquired run program session.controller.scene] := by
      simp [Task.acquisition, hholder]
    rw [milestones_resume scene htask, heq, hacquisition, ← List.append_assoc]
    rw [Session.happen, changeRun_of_eq_some htask, heq]
    exact (h.goesOn_acquire horderly htask session.clock).recorded session.clock rfl _
      (Task.stands_acquire session.clock session.controller)
  · obtain ⟨found, hgoes, hstands⟩ := h.goesOn_resting horderly htask
    have hnext := Task.stands_resume session.clock hstands
    rw [heq] at hnext
    rw [milestones_resume scene htask, heq, Session.happen, changeRun_of_eq_some htask, heq]
    exact hgoes.recorded session.clock rfl execution hnext

/-- **Every history is told by its chronicle.** -/
theorem recorded_after (scene : Scene σ) (pacing : Pacing) (program : Program) (state : σ)
    (history : List (Happening σ)) :
    ((opening pacing program state).after scene history).Recorded scene
      ((opening pacing program state).chronicle scene history) := by
  induction history using List.reverseRecOn with
  | nil => exact recorded_opening pacing program state
  | append_singleton history happening ih =>
    have horderly := orderly_after scene pacing program state history
    rw [chronicle_append, after_append]
    simpa [chronicle] using ih.happen horderly happening

end Recorded

/-! ## What can be relied on -/

section Grows

variable {scene} {session : Session σ}

/-- Unless it gives a run the scene, whatever happens at most adds to the log. -/
theorem grows_happen {happening : Happening σ}
    (h : lastAcquired (session.milestones scene happening) = none) :
    session.controller.log.snapshot
      <+: (session.happen scene happening).controller.log.snapshot := by
  obtain ⟨-, hspares⟩ | ⟨run, program, rfl, htask, hholder, heq⟩ |
      ⟨run, program, execution, wake, rfl, htask, heq⟩ := happen_cases scene session happening
  · exact hspares.log ▸ List.prefix_refl _
  · rw [milestones_resume scene htask, Task.acquisition, hholder] at h
    simp [lastAcquired, acquired?] at h
  · rw [happen, changeRun_of_eq_some htask, heq]
    obtain ⟨done, duration, execution', state, -, -, -, hnext⟩ | ⟨course, result, -, -, hnext⟩ :=
      session.controller.proceed_cases scene session.clock program execution
    · rw [hnext]
      exact ⟨Effect.events done, (EventLog.snapshot_pushAll _ _).symm⟩
    · rw [hnext]
      exact ⟨Effect.events course.effects, (EventLog.snapshot_pushAll _ _).symm⟩

/-- **The log only grows** until the next run gets the scene. -/
theorem grows_after {more : List (Happening σ)}
    (h : lastAcquired (session.chronicle scene more) = none) :
    session.controller.log.snapshot <+: (session.after scene more).controller.log.snapshot := by
  induction more generalizing session with
  | nil => exact List.prefix_refl _
  | cons happening more ih =>
    rw [chronicle, lastAcquired_append_eq_none] at h
    exact (grows_happen h.1).trans (ih h.2)

end Grows

/-- What the log and the last result tell of a session with a chronicle. -/
structure KeepsRecords (scene : Scene σ) (chronicle : List (Milestone σ)) (session : Session σ) :
    Prop where
  /-- The log is empty as long as no run has got the scene. -/
  blank : lastAcquired chronicle = none → session.controller.log.snapshot = []
  /-- The log is a beginning of the events which the run that got the scene last would return
  undisturbed, that is, on a fresh controller.  These have the form of a whole run, and the end of
  it is in the log only if the run has been completed, with that result. -/
  log : ∀ run program found, lastAcquired chronicle = some (run, program, found) →
    ∃ result : RunResult,
      (∀ pacing, ∃ fresh,
        (opening pacing program found).step scene .run = .ok (fresh, .result (some result)))
      ∧ IsRecord result.events
      ∧ session.controller.log.snapshot <+: result.events
      ∧ ∀ event ∈ session.controller.log.snapshot, event.isTerminal = true →
          chronicle.getLast? = some (.completed run result)
  /-- Until the next run gets the scene, the log only grows. -/
  grows : ∀ more, lastAcquired (session.chronicle scene more) = none →
    session.controller.log.snapshot <+: (session.after scene more).controller.log.snapshot
  /-- The last result is that of the run that was completed last. -/
  lastResult : session.controller.lastResult = (lastCompleted chronicle).map Prod.snd
  /-- As long as no run has got the scene since, the log is that of the last result. -/
  agrees : ∀ run result, chronicle.getLast? = some (.completed run result) →
    session.controller.lastResult = some result
      ∧ session.controller.log.snapshot = result.events

/-- A record that is told by a chronicle can be relied on, also in a session that has forgotten
other things. -/
theorem Recorded.keepsRecords {chronicle : List (Milestone σ)} {session whole : Session σ}
    (h : whole.Recorded scene chronicle)
    (hlog : session.controller.log = whole.controller.log)
    (hlast : session.controller.lastResult = whole.controller.lastResult) :
    session.KeepsRecords scene chronicle where
  blank hnone := by rw [hlog, h.blank hnone]
  log run program found hacquired := by
    obtain ⟨task, htask, hstands⟩ := h.stands run program found hacquired
    have hfresh : ∀ pacing, ∃ fresh, (opening pacing program found).step scene .run
        = .ok (fresh, .result (some (program.result scene whole.controller.pacing
            (scene.reset found)))) :=
      fun pacing => (orderly_opening pacing program found).step_run scene rfl rfl _
    obtain ⟨hbegins, hterminal⟩ := hstands.log
    rw [← hlog] at hbegins hterminal
    refine ⟨_, hfresh, Program.isRecord_result _ _ _ _, hbegins, fun event hevent hend => ?_⟩
    obtain rfl := hterminal event hevent hend
    exact h.answered run program found _ hacquired htask
  grows _ hmore := grows_after hmore
  lastResult := hlast.trans h.lastResult
  agrees run result hcompleted := by
    obtain ⟨⟨program, found, hacquired⟩, htask⟩ := h.completed run result hcompleted
    obtain ⟨task, htask', hstands⟩ := h.stands run program found hacquired
    obtain rfl := Option.some.inj (htask.symm.trans htask')
    obtain ⟨hresult, hsnapshot⟩ := hstands
    obtain ⟨earlier, rfl⟩ := List.getLast?_eq_some_iff.1 hcompleted
    refine ⟨?_, ?_⟩
    · rw [hlast, h.lastResult, lastCompleted_append_completed]
      rfl
    · rw [hlog, hsnapshot, ← Option.some.inj hresult]

/-- **The log is a beginning of what the run that cleared it would return undisturbed, and the last
result is that of the run completed last.**  So it is after every history, and after all operations
of a session, which amount to a history with its chronicle. -/
theorem keepsRecords_after (scene : Scene σ) (pacing : Pacing) (program : Program) (state : σ) :
    (∀ history, ((opening pacing program state).after scene history).KeepsRecords scene
        ((opening pacing program state).chronicle scene history))
      ∧ ∀ ops, ∃ history,
          ((opening pacing program state).performAll scene ops).TrimmedFrom
              ((opening pacing program state).after scene history)
            ∧ ((opening pacing program state).performAll scene ops).KeepsRecords scene
                ((opening pacing program state).chronicle scene history) := by
  constructor
  · intro history
    exact (recorded_after scene pacing program state history).keepsRecords scene rfl rfl
  · intro ops
    obtain ⟨history, htrimmed⟩ := trimmedFrom_performAll scene pacing program state ops
    refine ⟨history, htrimmed, ?_⟩
    obtain ⟨calls, hcontroller⟩ := htrimmed.controller
    exact (recorded_after scene pacing program state history).keepsRecords scene
      (by rw [hcontroller]) (by rw [hcontroller])

end Session

end BlockScript
