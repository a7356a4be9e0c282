import BlockScript.Proofs.Controller.Cancellation
import BlockScript.Proofs.Run.Accounts
import Mathlib.Data.List.Induction

/-!
# The accounts of completed runs

A run of a controller is completed when it goes on for the last time.  What its result says, what it
has used of the scene since it was admitted, and the stage at that moment tell the same, whatever
has happened to the controller before and in between.

## What is here

* `Session.exists_completion` — a run that has a result went on at some moment, when it was in
  flight, and was answered.
* `Task.completed_resume` — what a run on course has left behind when it is answered: the result,
  the uses and the scene of its program if nobody disturbs it.
* `Session.completed_run_agrees` — **the accounts of every completed run agree**.
-/

set_option autoImplicit false
namespace BlockScript

variable {σ : Type}

/-! ## The moment of completion -/

section Resume

variable {scene : Scene σ} {start : σ} {program : Program} {earlier : List Scene.Call}

/-- A run that ends leaves the scene as its program does if nobody disturbs it. -/
theorem Controller.scene_proceed (now : Nat) {controller : Controller σ} {execution : Execution}
    {done : List Effect} {own : Program} {result : RunResult}
    (hmeaning : (program.performance scene controller.pacing start).lasting
      = (execution.meaning scene controller.pacing controller.scene).lasting.after done)
    (hanswered : (controller.proceed scene now own execution).2 = .answered (some result)) :
    (controller.proceed scene now own execution).1.scene
      = (program.performance scene controller.pacing start).state := by
  obtain ⟨more, duration, execution', state, -, -, -, h⟩ | ⟨course, result', hcourse, -, h⟩ :=
    controller.proceed_cases scene now own execution
  · rw [h] at hanswered
    cases hanswered
  · rw [h]
    rw [hcourse] at hmeaning
    exact (congrArg (fun course => course.state) hmeaning).symm

/-- **What a run has left behind when it is answered**: the result, the uses and the scene of its
program if nobody disturbs it, at any pace. -/
theorem Task.completed_resume (hreset : ∀ state, scene.reset state = start) (now : Nat)
    {controller : Controller σ} {task : Task} {result : RunResult}
    (h : task.OnCourse scene start program earlier controller) (hflight : task.inFlight = true)
    (hanswered : (controller.resume scene now task).2 = .answered (some result))
    (pacing : Pacing) :
    result = program.result scene pacing start
      ∧ (controller.resume scene now task).1.uses
        = earlier ++ .reset :: Effect.calls (program.performance scene pacing start).effects
      ∧ (controller.resume scene now task).1.scene
        = (program.performance scene pacing start).state := by
  have hcourse := Task.onCourse_resume hreset now h
  rw [hanswered] at hcourse
  obtain ⟨hresult, huses⟩ := hcourse pacing
  refine ⟨Option.some.inj hresult, huses, ?_⟩
  have hpacing : (program.performance scene pacing start).state
      = (program.performance scene controller.pacing start).state :=
    congrArg (fun course => course.state)
      (program.deeds_performance scene pacing controller.pacing start)
  rw [hpacing]
  -- A run goes on for the first time, with a reset of the scene, or after a rest.
  obtain ⟨heq, -⟩ | ⟨own, rfl, -, heq⟩ | ⟨own, execution, wake, rfl, heq⟩ :=
    controller.resume_cases scene now task
  · rw [heq] at hanswered
    subst hanswered
    exact absurd hflight (by simp [Task.inFlight])
  · rw [heq] at hanswered ⊢
    obtain ⟨rfl, -⟩ := h
    have hmeaning : (own.performance scene controller.pacing start).lasting
        = ((Execution.start own).meaning scene controller.pacing
            (controller.acquire scene now).scene).lasting.after [] := by
      rw [Controller.acquire, hreset]
      rfl
    exact Controller.scene_proceed now hmeaning hanswered
  · rw [heq] at hanswered ⊢
    obtain ⟨-, -, done, hmeaning, -⟩ := h
    exact Controller.scene_proceed now hmeaning hanswered

end Resume

namespace Session

/-- A run appears when it is requested, and it has no result then. -/
theorem not_answered_of_new {scene : Scene σ} {session : Session σ} {run : Nat}
    (hnone : session.tasks[run]? = none) {happening : Happening σ} {result : RunResult} :
    (session.happen scene happening).tasks[run]? ≠ some (.answered (some result)) := by
  rintro h
  have hlength := List.getElem?_eq_none_iff.1 hnone
  have hlater := (List.getElem?_eq_some_iff.1 h).1
  by_cases hrequest : happening = .request
  · subst hrequest
    have hrun : run = session.tasks.length := by
      simp only [happen, List.length_append, List.length_singleton] at hlater
      omega
    simp only [happen, hrun, List.getElem?_concat_length, Controller.request] at h
    split at h <;> simp at h
  · rw [length_tasks_happen scene session hrequest] at hlater
    omega

/-- A run that has a result went on at some moment, when it was in flight, and was answered. -/
theorem exists_completion (scene : Scene σ) {session : Session σ} (htasks : session.tasks = [])
    {history : List (Happening σ)} {run : Nat} {result : RunResult}
    (h : (session.after scene history).tasks[run]? = some (.answered (some result))) :
    ∃ before rest task, history = before ++ .resume run :: rest
      ∧ (session.after scene before).tasks[run]? = some task ∧ task.inFlight = true
      ∧ ((session.after scene before).controller.resume scene (session.after scene before).clock
          task).2 = .answered (some result) := by
  -- The induction is on the last happening: nothing changes the result of a run that has one.
  induction history using List.reverseRecOn with
  | nil => simp [htasks] at h
  | append_singleton history happening ih =>
    rw [after_append, after_cons, after_nil] at h
    cases htask : (session.after scene history).tasks[run]? with
    | none => exact absurd h (not_answered_of_new htask)
    | some task =>
      cases hflight : task.inFlight with
      | false =>
        rw [getElem?_tasks_happen_of_not_inFlight htask hflight happening] at h
        obtain ⟨before, rest, task', rfl, hcompleted⟩ := ih (htask.trans h)
        exact ⟨before, rest ++ [happening], task', by simp, hcompleted⟩
      | true =>
        have hlength := (List.getElem?_eq_some_iff.1 htask).1
        by_cases hresume : happening = .resume run
        · subst hresume
          refine ⟨history, [], task, rfl, htask, hflight, ?_⟩
          rw [happen, changeRun_of_eq_some htask] at h
          exact Option.some.inj ((List.getElem?_set_self hlength).symm.trans h)
        · by_cases habort : happening = .abort run
          · subst habort
            rw [happen_abort_of_inFlight htask hflight] at h
            cases Option.some.inj ((List.getElem?_set_self hlength).symm.trans h)
          · rw [getElem?_tasks_happen htask hresume habort] at h
            obtain rfl := Option.some.inj h
            exact absurd hflight (by simp [Task.inFlight])

/-- A run that was admitted and goes on for the last time leaves accounts that agree. -/
theorem Orderly.agrees_of_answered {geometry : Geometry Float}
    {admitted last : Session (StageState Float)} {run : Nat} {task : Task}
    {middle : List (Happening (StageState Float))} {result : RunResult} (h : admitted.Orderly)
    (hlength : admitted.tasks.length = run)
    (hlast : admitted.after geometry.scene (.request :: middle) = last)
    (htask : last.tasks[run]? = some task) (hflight : task.inFlight = true)
    (hanswered : (last.controller.resume geometry.scene last.clock task).2
      = .answered (some result)) :
    admitted.controller.running = false
      ∧ (last.happen geometry.scene (.resume run)).tasks[run]? = some (.answered (some result))
      ∧ ∃ uses, (last.happen geometry.scene (.resume run)).controller.uses
            = admitted.controller.uses ++ uses
          ∧ result.Agrees geometry admitted.controller.program uses
              (last.happen geometry.scene (.resume run)).controller.scene := by
  have hreset : ∀ state, geometry.scene.reset state = StageState.initial geometry := fun _ => rfl
  obtain ⟨hrunning, hrequest⟩ := admitted_of_inFlight hlength (hlast ▸ htask) hflight
  have hwaits : (admitted.happen geometry.scene .request).tasks[run]?
      = some (.waiting admitted.controller.program) := by simp [hrequest, ← hlength]
  have huses : (admitted.happen geometry.scene .request).controller.uses
      = admitted.controller.uses := by rw [hrequest]; rfl
  obtain ⟨followed, hfollowed⟩ :=
    followed_after (h.request geometry.scene) hreset hwaits middle
  obtain ⟨hcurrent, hcourse, -⟩ := hfollowed
  rw [← after_cons, hlast] at hcurrent hcourse
  obtain rfl := Option.some.inj (htask.symm.trans hcurrent)
  obtain ⟨rfl, hused, hscene⟩ :=
    Task.completed_resume hreset last.clock (hcourse hflight) hflight hanswered .instant
  have hnext : last.happen geometry.scene (.resume run) = _ := changeRun_of_eq_some htask
  rw [hnext]
  refine ⟨hrunning, ?_, _, hused.trans (by rw [huses]), ?_⟩
  · exact (List.getElem?_set_self (List.getElem?_eq_some_iff.1 htask).1).trans
      (congrArg some hanswered)
  · show RunResult.Agrees geometry _ _ _
      (last.controller.resume geometry.scene last.clock task).1.scene
    rw [hscene]
    exact admitted.controller.program.agrees_result geometry .instant

/-- **The accounts of every completed run agree.**  Take any history of a controller with a stage,
and any run that has a result after it.  The run was admitted at some moment, and at a later one it
went on for the last time.  Its result, what it has used of the scene from the first moment to the
second, and the stage at the second moment agree, for the program that was installed at the
first. -/
theorem completed_run_agrees (geometry : Geometry Float) (pacing : Pacing) (program : Program)
    (state : StageState Float) (history : List (Happening (StageState Float))) {run : Nat}
    {result : RunResult}
    (h : ((opening pacing program state).after geometry.scene history).tasks[run]?
      = some (.answered (some result))) :
    ∃ earlier middle rest, history = earlier ++ .request :: (middle ++ .resume run :: rest)
      ∧ let admitted := (opening pacing program state).after geometry.scene earlier
        let last := admitted.after geometry.scene (.request :: middle)
        let completed := last.happen geometry.scene (.resume run)
        admitted.tasks.length = run ∧ admitted.controller.running = false
          ∧ (∃ task, last.tasks[run]? = some task ∧ task.inFlight = true)
          ∧ completed.tasks[run]? = some (.answered (some result))
          ∧ ∃ uses, completed.controller.uses = admitted.controller.uses ++ uses
              ∧ result.Agrees geometry admitted.controller.program uses
                  completed.controller.scene := by
  obtain ⟨before, rest, task, rfl, htask, hflight, hanswered⟩ :=
    exists_completion geometry.scene rfl h
  obtain ⟨earlier, middle, rfl, hlength⟩ :=
    exists_request geometry.scene rfl (List.getElem?_eq_some_iff.1 htask).1
  have horderly := orderly_after geometry.scene pacing program state earlier
  rw [after_append] at htask hanswered
  obtain ⟨hrunning, hcompleted, hagrees⟩ :=
    horderly.agrees_of_answered hlength rfl htask hflight hanswered
  exact ⟨earlier, middle, rest, by simp, hlength, hrunning, ⟨task, htask, hflight⟩, hcompleted,
    hagrees⟩

/-- A program that tries to eat at once. -/
def snack : Program := { name := "snack", blocks := [.start, .eat] }

theorem entryPoints_snack : snack.entryPoints = [[.eat]] := by
  rw [Program.entryPoints_eq]
  simp [snack, Block.startsFrom, Block.isStart]

/-- A stage on which the actor begins at the target. -/
def servedStage : Geometry Float :=
  { Geometry.standard with targetStart := Geometry.standard.actorStart }

theorem distance_servedStage : (StageState.initial servedStage).distance < 50 := by
  decide +kernel

/-- The run of that program eats without coming to rest. -/
theorem advance_snack :
    (Execution.start snack).advance servedStage.scene .instant #[] (StageState.initial servedStage)
      = (#[.emit .started, .call (.distance (StageState.initial servedStage).distance),
          .call .consume, .emit .targetEaten, .emit (.finished .succeeded)],
        (StageState.initial servedStage).consume, .finished .succeeded) := by
  have hreach : (servedStage.scene.distance (StageState.initial servedStage)).1 < 50 :=
    distance_servedStage
  simp [Execution.start, entryPoints_snack]
  simp [Execution.advance, Execution.closing, Walk.turn, Walk.runBlock_eat_of_lt _ _ _ hreach,
    Walk.outcome, Frame.sequence, Pacing.instant]
  exact ⟨rfl, rfl⟩

/-- A run that eats, on a stage on which the target has been eaten before. -/
theorem completed_snack_agrees :
    let history : List (Happening (StageState Float)) :=
      [.change StageState.consume, .request, .resume 0]
    let result : RunResult :=
      { program := "snack"
        events := [.started, .targetEaten, .finished .succeeded]
        outcome := .succeeded
        entryPoints := 1 }
    let session : Session (StageState Float) :=
      opening .instant snack (StageState.initial servedStage)
    (session.after servedStage.scene history).tasks[0]? = some (.answered (some result))
      ∧ ∃ earlier uses stage,
        result.Agrees servedStage (session.after servedStage.scene earlier).controller.program uses
          stage := by
  intro history result session
  have h : (session.after servedStage.scene history).tasks[0]?
      = some (.answered (some result)) := by
    have hreset : ∀ state, servedStage.scene.reset state = StageState.initial servedStage :=
      fun _ => rfl
    have hentries : (Execution.start snack).entryPoints = 1 := by
      simp [Execution.start, entryPoints_snack]
    simp [session, history, result, after, opening, happen, modify, changeRun, Controller.request,
      Controller.resume, Controller.acquire, Controller.proceed, hreset, advance_snack, hentries,
      Controller.note, EventLog.push, EventLog.clear, EventLog.snapshot]
    rfl
  obtain ⟨earlier, middle, rest, -, -, -, -, -, uses, -, hagrees⟩ :=
    completed_run_agrees servedStage .instant snack (StageState.initial servedStage) history h
  exact ⟨h, earlier, uses, _, hagrees⟩

end Session

end BlockScript
