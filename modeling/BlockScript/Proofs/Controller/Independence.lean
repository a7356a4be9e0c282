import BlockScript.Proofs.Controller.Operations
import BlockScript.Stage
import Mathlib.Data.List.Induction

/-!
# Runs do not depend on what was before

A run shares the scene and the log with all other runs of its controller, and the program can be
replaced while it waits or rests.  This file follows one run through a history and proves that
nothing of this reaches it: it does what its program does on a fresh stage.

## What is here

* `Task.OnCourse` — what has been said and done for a run so far is the beginning of what its
  program does when nobody disturbs it.
* `Task.onCourse_resume` and `Session.onCourse_happen` — a run stays on course when it goes on, and
  when anything else happens.
* `Session.Followed` and `Session.followed_after` — so a run that has a result after a history was
  on course up to the moment at which it was answered.
* `Session.step_run_opening` — a controller that has not been used yet does just that.
* `Session.completed_run_eq_fresh_run` — **every completed run equals a run on a fresh stage** of
  the program that was installed when it was admitted.
-/

set_option autoImplicit false
namespace BlockScript

variable {σ : Type}

/-- The uses that runs have made of the scene, without their times. -/
def Controller.uses (controller : Controller σ) : List Scene.Call :=
  controller.calls.toList.map Prod.snd

/-! ## Runs on course -/

/-- A run of a program is on course: what has been used of the scene since it was requested, and
what has been logged since it got the scene, is the beginning of what the program does when it
starts from a given state, and the rest of it is left to do. -/
def Task.OnCourse (scene : Scene σ) (start : σ) (program : Program) (earlier : List Scene.Call)
    (controller : Controller σ) : Task → Prop
  | .waiting own => own = program ∧ controller.uses = earlier
  | .resting own execution _ =>
    own = program ∧ execution.entryPoints = program.entryPoints.length
      ∧ ∃ done, (program.performance scene controller.pacing start).lasting
            = (execution.meaning scene controller.pacing controller.scene).lasting.after done
          ∧ controller.uses = earlier ++ .reset :: Effect.calls done
          ∧ controller.log.snapshot = Effect.events done
  | .answered result => ∀ pacing,
    result = some (program.result scene pacing start)
      ∧ controller.uses
        = earlier ++ .reset :: Effect.calls (program.performance scene pacing start).effects
  | .cancelled => False

theorem Controller.uses_noted (now : Nat) (controller : Controller σ) (effects : List Effect)
    (state : σ) : (controller.noted now effects state).uses
      = controller.uses ++ Effect.calls effects := by
  simp [uses, noted, List.map_map, Function.comp_def]

section Resume

variable {scene : Scene σ} {start : σ} {program : Program} {earlier : List Scene.Call}

/-- A run that holds the scene stays on course when it goes on, to its next rest or to its end. -/
theorem Task.onCourse_proceed (now : Nat) {controller : Controller σ} {execution : Execution}
    (done : List Effect) (hentries : execution.entryPoints = program.entryPoints.length)
    (hmeaning : (program.performance scene controller.pacing start).lasting
      = (execution.meaning scene controller.pacing controller.scene).lasting.after done)
    (huses : controller.uses = earlier ++ .reset :: Effect.calls done)
    (hlog : controller.log.snapshot = Effect.events done) :
    (controller.proceed scene now program execution).2.OnCourse scene start program earlier
      (controller.proceed scene now program execution).1 := by
  obtain ⟨more, duration, execution', state, -, hentries', hrest, h⟩ |
      ⟨course, result, hcourse, hresult, h⟩ :=
    controller.proceed_cases scene now program execution
  · rw [h]
    refine ⟨rfl, hentries'.trans hentries, done ++ (more ++ [.rest duration]), ?_, ?_, ?_⟩
    · show (program.performance scene controller.pacing start).lasting = _
      rw [hmeaning, hrest, Course.after_after]
      rfl
    · rw [Controller.uses_noted, huses]
      simp
    · show (controller.log.pushAll (Effect.events more)).snapshot = _
      rw [EventLog.snapshot_pushAll, hlog]
      simp
  · rw [h]
    intro pacing
    -- Up to its rests, the whole performance is what was done before and what was done now.
    have hwhole : (program.performance scene controller.pacing start).lasting
        = course.after done := by rw [hmeaning, hcourse]
    have hcalls : Effect.calls (program.performance scene pacing start).effects
        = Effect.calls done ++ Effect.calls course.effects := by
      rw [Program.calls_eq_calls scene pacing controller.pacing, ← Effect.calls_lasting,
        ← Effect.calls_append]
      exact congrArg (fun course => Effect.calls course.effects) hwhole
    have hevents : Effect.events (program.performance scene controller.pacing start).effects
        = Effect.events done ++ Effect.events course.effects := by
      rw [← Effect.events_lasting, ← Effect.events_append]
      exact congrArg (fun course => Effect.events course.effects) hwhole
    have hsucceeded : (program.performance scene controller.pacing start).succeeded
        = course.succeeded := congrArg (fun course => course.succeeded) hwhole
    constructor
    · rw [Program.result_eq_result scene pacing controller.pacing, hresult]
      simp [Controller.concluded, Program.result, hentries, hevents, hsucceeded, hlog]
    · show (controller.noted now course.effects course.state).uses = _
      rw [Controller.uses_noted, huses, hcalls]
      simp

/-- **A run stays on course when it goes on**, provided that a reset always leads to the state from
which its program starts. -/
theorem Task.onCourse_resume (hreset : ∀ state, scene.reset state = start) (now : Nat)
    {controller : Controller σ} {task : Task}
    (h : task.OnCourse scene start program earlier controller) :
    (controller.resume scene now task).2.OnCourse scene start program earlier
      (controller.resume scene now task).1 := by
  obtain ⟨heq, -⟩ | ⟨own, rfl, -, heq⟩ | ⟨own, execution, wake, rfl, heq⟩ :=
    controller.resume_cases scene now task
  · rwa [heq]
  · obtain ⟨rfl, huses⟩ := h
    rw [heq]
    refine Task.onCourse_proceed now [] rfl ?_ ?_ rfl
    · rw [Controller.acquire, hreset]
      rfl
    · simp [Controller.uses, Controller.acquire, ← huses]
  · obtain ⟨rfl, hentries, done, hmeaning, huses, hlog⟩ := h
    rw [heq]
    exact Task.onCourse_proceed now done hentries hmeaning huses hlog

end Resume

namespace Session

/-! ## Runs in histories -/

section Histories

variable {scene : Scene σ} {start : σ} {program : Program} {earlier : List Scene.Call}
  {session : Session σ} {run : Nat} {task : Task}

/-- While a run is in flight no other run is. -/
theorem Orderly.not_inFlight_of_ne (h : session.Orderly) (htask : session.tasks[run]? = some task)
    (hflight : task.inFlight = true) {other : Nat} {task' : Task} (hne : other ≠ run)
    (hother : session.tasks[other]? = some task') : task'.inFlight = false := by
  have hone : session.tasks.countP Task.inFlight ≤ 1 := by
    rw [h.running]
    exact Bool.toNat_le _
  have hset := Task.countP_set (p := Task.inFlight) htask .cancelled
  rw [hflight] at hset
  have hzero : (session.tasks.set run .cancelled).countP Task.inFlight = 0 := by
    simp only [Task.inFlight, Bool.toNat_true, Bool.toNat_false] at hset
    omega
  have hmem : task' ∈ session.tasks.set run .cancelled :=
    List.mem_of_getElem? (by rw [List.getElem?_set_ne hne.symm, hother])
  simpa using List.countP_eq_zero.1 hzero task' hmem

theorem abort_of_not_inFlight (controller : Controller σ) (h : task.inFlight = false) :
    controller.abort task = (controller, task) := by
  cases task with
  | waiting program => simp [Task.inFlight] at h
  | resting program execution wake => simp [Task.inFlight] at h
  | answered result => rfl
  | cancelled => rfl

/-- While a run is in flight nothing can be done to the others. -/
theorem Orderly.changeRun_of_ne (h : session.Orderly) (htask : session.tasks[run]? = some task)
    (hflight : task.inFlight = true) {other : Nat} (hne : other ≠ run)
    {change : Controller σ → Task → Controller σ × Task}
    (hchange : ∀ task', task'.inFlight = false →
      change session.controller task' = (session.controller, task')) :
    session.changeRun other change = session := by
  cases hother : session.tasks[other]? with
  | none => exact changeRun_of_eq_none hother
  | some task' =>
    exact changeRun_eq_self hother (hchange task' (h.not_inFlight_of_ne htask hflight hne hother))

/-- A run changes only when it goes on itself or is aborted. -/
theorem getElem?_tasks_happen (htask : session.tasks[run]? = some task) {happening : Happening σ}
    (hresume : happening ≠ .resume run) (habort : happening ≠ .abort run) :
    (session.happen scene happening).tasks[run]? = some task := by
  have hchange : ∀ (other : Nat) (change : Controller σ → Task → Controller σ × Task),
      other ≠ run → (session.changeRun other change).tasks[run]? = some task := by
    intro other change hne
    cases hother : session.tasks[other]? with
    | none => rwa [changeRun_of_eq_none hother]
    | some task' =>
      rw [changeRun_of_eq_some hother]
      exact (List.getElem?_set_ne hne).trans htask
  cases happening with
  | request =>
    exact (List.getElem?_append_left (List.getElem?_eq_some_iff.1 htask).1).trans htask
  | resume other => exact hchange other _ fun h => hresume (by rw [h])
  | abort other => exact hchange other _ fun h => habort (by rw [h])
  | elapse duration => exact htask
  | setProgram program => exact htask
  | take => rw [happen]; split <;> exact htask
  | giveBack => rw [happen]; split <;> exact htask
  | change change => rw [happen]; split <;> exact htask
  | subscribe => exact htask
  | drain receiver => rw [happen]; split <;> exact htask

/-- A run that is not in flight does not change any more. -/
theorem getElem?_tasks_happen_of_not_inFlight (htask : session.tasks[run]? = some task)
    (hflight : task.inFlight = false) (happening : Happening σ) :
    (session.happen scene happening).tasks[run]? = some task := by
  by_cases hresume : happening = .resume run
  · subst hresume
    rw [happen, changeRun_eq_self htask
      (Controller.resume_of_not_inFlight scene _ session.controller hflight)]
    exact htask
  · by_cases habort : happening = .abort run
    · subst habort
      rw [happen, changeRun_eq_self htask (abort_of_not_inFlight session.controller hflight)]
      exact htask
    · exact getElem?_tasks_happen htask hresume habort

/-- **Nothing that happens to others takes a run off its course.** -/
theorem onCourse_happen (h : session.Orderly) (htask : session.tasks[run]? = some task)
    (hflight : task.inFlight = true)
    (hcourse : task.OnCourse scene start program earlier session.controller)
    {happening : Happening σ} (hresume : happening ≠ .resume run)
    (habort : happening ≠ .abort run) :
    task.OnCourse scene start program earlier (session.happen scene happening).controller := by
  have hmem : task ∈ session.tasks := List.mem_of_getElem? htask
  cases happening with
  | request =>
    rw [(h.request_of_inFlight scene hmem hflight).2]
    exact hcourse
  | resume other =>
    rw [happen, h.changeRun_of_ne htask hflight (fun h => hresume (by rw [h]))
      fun task' => Controller.resume_of_not_inFlight scene _ session.controller]
    exact hcourse
  | abort other =>
    rw [happen, h.changeRun_of_ne htask hflight (fun h => habort (by rw [h]))
      fun task' => abort_of_not_inFlight session.controller]
    exact hcourse
  | elapse duration => exact hcourse
  | setProgram program => exact hcourse
  | take => rw [happen]; split <;> exact hcourse
  | giveBack => rw [happen]; split <;> exact hcourse
  | change change =>
    cases task with
    | waiting own => rw [happen]; split <;> exact hcourse
    | resting own execution wake =>
      have hholder := Controller.heldByRun_iff.1 (h.heldByRun_of_holdsScene hmem rfl)
      rw [happen, if_pos hholder]
      exact hcourse
    | answered result => simp [Task.inFlight] at hflight
    | cancelled => simp [Task.inFlight] at hflight
  | subscribe => exact hcourse
  | drain receiver => rw [happen]; split <;> exact hcourse

/-- A history takes a run to its end: at some moment the run goes on and is answered, and up to
there it has been on course. -/
def AnsweredIn (scene : Scene σ) (start : σ) (program : Program) (earlier : List Scene.Call)
    (admitted : Session σ) (run : Nat) (result : RunResult) (history : List (Happening σ)) : Prop :=
  ∃ middle rest, history = middle ++ .resume run :: rest
    ∧ ((admitted.after scene middle).happen scene (.resume run)).tasks[run]?
        = some (.answered (some result))
    ∧ (Task.answered (some result)).OnCourse scene start program earlier
        ((admitted.after scene middle).happen scene (.resume run)).controller

/-- What a history has made of a run: it is on course as long as it is in flight, and if it has a
result the history has taken it to its end. -/
structure Followed (scene : Scene σ) (start : σ) (program : Program) (earlier : List Scene.Call)
    (admitted : Session σ) (run : Nat) (history : List (Happening σ)) (task : Task) : Prop where
  current : (admitted.after scene history).tasks[run]? = some task
  onCourse : task.inFlight = true →
    task.OnCourse scene start program earlier (admitted.after scene history).controller
  answered : ∀ result, task = .answered (some result) →
    AnsweredIn scene start program earlier admitted run result history

section Next

variable {admitted : Session σ} {history : List (Happening σ)}

/-- A run that is over stays as it is. -/
theorem Followed.of_not_inFlight
    (h : Followed scene start program earlier admitted run history task)
    (hflight : task.inFlight = false) (happening : Happening σ) :
    Followed scene start program earlier admitted run (history ++ [happening]) task where
  current := by
    rw [after_append]
    exact getElem?_tasks_happen_of_not_inFlight h.current hflight happening
  onCourse hflight' := by simp [hflight] at hflight'
  answered result heq := by
    obtain ⟨middle, rest, rfl, hanswer⟩ := h.answered result heq
    exact ⟨middle, rest ++ [happening], by simp, hanswer⟩

/-- A run that goes on stays on course, and if it is answered now, this is the moment. -/
theorem Followed.resume (h : Followed scene start program earlier admitted run history task)
    (hreset : ∀ state, scene.reset state = start) (hflight : task.inFlight = true) :
    Followed scene start program earlier admitted run (history ++ [.resume run])
      ((admitted.after scene history).controller.resume scene
        (admitted.after scene history).clock task).2 := by
  have hnow := Task.onCourse_resume hreset (admitted.after scene history).clock
    (h.onCourse hflight)
  have hnext : (admitted.after scene history).happen scene (.resume run) = _ :=
    changeRun_of_eq_some h.current
  have hcurrent : ((admitted.after scene history).happen scene (.resume run)).tasks[run]?
      = some ((admitted.after scene history).controller.resume scene
        (admitted.after scene history).clock task).2 := by
    rw [hnext]
    exact List.getElem?_set_self (List.getElem?_eq_some_iff.1 h.current).1
  refine ⟨?_, fun _ => ?_, fun result heq => ⟨history, [], rfl, ?_, ?_⟩⟩
  · rw [after_append]
    exact hcurrent
  · rw [after_append, after_cons, after_nil, hnext]
    exact hnow
  · rw [hcurrent, heq]
  · rw [← heq, hnext]
    exact hnow

/-- A run that is aborted is over, without a result. -/
theorem Followed.abort (h : Followed scene start program earlier admitted run history task)
    (hflight : task.inFlight = true) :
    Followed scene start program earlier admitted run (history ++ [.abort run]) .cancelled := by
  have hcancelled : ((admitted.after scene history).controller.abort task).2 = .cancelled := by
    cases task with
    | waiting own => rfl
    | resting own execution wake => rfl
    | answered result => simp [Task.inFlight] at hflight
    | cancelled => simp [Task.inFlight] at hflight
  have hnext : (admitted.after scene history).happen scene (.abort run) = _ :=
    changeRun_of_eq_some h.current
  refine ⟨?_, by simp [Task.inFlight], by simp⟩
  rw [after_append, after_cons, after_nil, hnext, ← hcancelled]
  exact List.getElem?_set_self (List.getElem?_eq_some_iff.1 h.current).1

/-- A run in flight stays as it is, and on course, when anything else happens. -/
theorem Followed.elsewhere (h : Followed scene start program earlier admitted run history task)
    (horderly : (admitted.after scene history).Orderly) (hflight : task.inFlight = true)
    {happening : Happening σ} (hresume : happening ≠ .resume run)
    (habort : happening ≠ .abort run) :
    Followed scene start program earlier admitted run (history ++ [happening]) task where
  current := by
    rw [after_append]
    exact getElem?_tasks_happen h.current hresume habort
  onCourse _ := by
    rw [after_append]
    exact onCourse_happen horderly h.current hflight (h.onCourse hflight) hresume habort
  answered result heq := by
    rw [heq] at hflight
    simp [Task.inFlight] at hflight

/-- **One more happening**: a run that has been followed up to now can be followed further. -/
theorem Followed.next (horderly : admitted.Orderly) (hreset : ∀ state, scene.reset state = start)
    (h : Followed scene start program earlier admitted run history task)
    (happening : Happening σ) :
    ∃ task', Followed scene start program earlier admitted run (history ++ [happening]) task' := by
  cases hflight : task.inFlight with
  | false => exact ⟨task, h.of_not_inFlight hflight happening⟩
  | true =>
    by_cases hresume : happening = .resume run
    · exact ⟨_, hresume ▸ h.resume hreset hflight⟩
    · by_cases habort : happening = .abort run
      · exact ⟨_, habort ▸ h.abort hflight⟩
      · exact ⟨task, h.elsewhere (horderly.of_leadsTo ⟨history, rfl⟩) hflight hresume habort⟩

end Next

/-- A run that has been admitted can be followed through every history. -/
theorem followed_after {admitted : Session σ} (horderly : admitted.Orderly)
    (hreset : ∀ state, scene.reset state = start)
    (hwaits : admitted.tasks[run]? = some (.waiting program))
    (history : List (Happening σ)) :
    ∃ task, Followed scene start program admitted.controller.uses admitted run history task := by
  induction history using List.reverseRecOn with
  | nil => exact ⟨.waiting program, hwaits, fun _ => ⟨rfl, rfl⟩, by simp⟩
  | append_singleton history happening ih =>
    obtain ⟨task, htask⟩ := ih
    exact Followed.next horderly hreset htask happening

end Histories

/-! ## Undisturbed runs -/

section Opening

variable {scene : Scene σ} {start : σ}

/-- The only run of a session stays on course when it goes on by itself. -/
theorem onCourse_settle (hreset : ∀ state, scene.reset state = start) {program : Program}
    {earlier : List Scene.Call} {session : Session σ}
    (h : ∃ task, session.tasks = [task]
      ∧ task.OnCourse scene start program earlier session.controller) :
    ∃ task, (session.settle scene).tasks = [task]
      ∧ task.OnCourse scene start program earlier (session.settle scene).controller := by
  obtain ⟨task, htasks, hcourse⟩ := h
  refine ⟨(session.controller.resume scene session.clock task).2, ?_, ?_⟩
  · simp [settle, htasks, Controller.resumeAll]
  · simp only [settle, htasks, Controller.resumeAll]
    exact Task.onCourse_resume hreset session.clock hcourse

theorem onCourse_runOut (hreset : ∀ state, scene.reset state = start) {program : Program}
    {earlier : List Scene.Call} {session : Session σ}
    (h : ∃ task, session.tasks = [task]
      ∧ task.OnCourse scene start program earlier session.controller) :
    ∃ task, (session.runOut scene).tasks = [task]
      ∧ task.OnCourse scene start program earlier (session.runOut scene).controller := by
  fun_induction runOut scene session with
  | case1 session hwake => exact h
  | case2 session wake hwake ih => exact ih (onCourse_settle hreset h)

/-- A controller that has not been used yet does what its program does when nobody disturbs it. -/
theorem step_run_opening (hreset : ∀ state, scene.reset state = start) (pacing : Pacing)
    (program : Program) (state : σ) :
    ∃ fresh : Session σ,
      (opening pacing program state).step scene .run
          = .ok (fresh, .result (some (program.result scene pacing start)))
      ∧ fresh.controller.uses
          = .reset :: Effect.calls (program.performance scene pacing start).effects := by
  have hsteady : (opening pacing program state).Steady :=
    ⟨orderly_opening pacing program state, by simp [Settled, opening]⟩
  have hrequest : ∃ task, ((opening pacing program state).request scene).tasks = [task]
      ∧ task.OnCourse scene start program []
        ((opening pacing program state).request scene).controller := by
    rw [request_eq_settle]
    exact onCourse_settle hreset ⟨.waiting program, rfl, rfl, rfl⟩
  obtain ⟨task, htasks, hcourse⟩ := onCourse_runOut hreset hrequest
  have hidle : task.inFlight = false :=
    (@Steady.request σ scene _ hsteady).not_inFlight_runOut (taken_request rfl)
      (by rw [htasks]; exact List.mem_singleton_self task)
  cases task with
  | waiting own => simp [Task.inFlight] at hidle
  | resting own execution wake => simp [Task.inFlight] at hidle
  | answered result =>
    obtain ⟨rfl, huses⟩ := hcourse pacing
    refine ⟨{ ((opening pacing program state).request scene).runOut scene with
      tasks := (((opening pacing program state).request scene).runOut scene).tasks.dropLast }, ?_,
      huses⟩
    rw [step, runNow_of_free rfl rfl, htasks]
    rfl
  | cancelled => exact hcourse.elim

end Opening

/-! ## Completed runs -/

/-- Runs are added by requests only. -/
theorem length_tasks_happen (scene : Scene σ) (session : Session σ) {happening : Happening σ}
    (h : happening ≠ .request) :
    (session.happen scene happening).tasks.length = session.tasks.length := by
  have hchange : ∀ (run : Nat) (change : Controller σ → Task → Controller σ × Task),
      (session.changeRun run change).tasks.length = session.tasks.length := by
    intro run change
    rw [changeRun]
    split
    · rfl
    · exact List.length_set
  cases happening with
  | request => exact absurd rfl h
  | resume run => exact hchange run _
  | abort run => exact hchange run _
  | elapse duration => rfl
  | setProgram program => rfl
  | take => rw [happen]; split <;> rfl
  | giveBack => rw [happen]; split <;> rfl
  | change change => rw [happen]; split <;> rfl
  | subscribe => rfl
  | drain receiver => rw [happen]; split <;> rfl

/-- Every run was requested at some moment. -/
theorem exists_request (scene : Scene σ) {session : Session σ} (htasks : session.tasks = [])
    {history : List (Happening σ)} {run : Nat}
    (h : run < (session.after scene history).tasks.length) :
    ∃ earlier later, history = earlier ++ .request :: later
      ∧ (session.after scene earlier).tasks.length = run := by
  induction history using List.reverseRecOn with
  | nil => simp [htasks] at h
  | append_singleton history happening ih =>
    rw [after_append, after_cons, after_nil] at h
    by_cases hearlier : run < (session.after scene history).tasks.length
    · obtain ⟨earlier, later, rfl, hlength⟩ := ih hearlier
      exact ⟨earlier, later ++ [happening], by simp, hlength⟩
    · by_cases hrequest : happening = .request
      · subst hrequest
        refine ⟨history, [], rfl, ?_⟩
        simp only [happen, List.length_append, List.length_singleton] at h
        omega
      · rw [length_tasks_happen scene _ hrequest] at h
        exact absurd h hearlier

/-- **Every completed run equals a run on a fresh stage.**  Take any history of a controller with a
stage, and any run that has a result after it.  The run was requested at some moment, when no run
was in flight, and completed at a later one.  A fresh controller with a fresh stage of the same
geometry and any pacing, which runs the program that was installed at the first moment, answers the
same result; and what the run has done to the scene from its reset up to the second moment is what
the fresh run does to its scene. -/
theorem completed_run_eq_fresh_run (geometry : Geometry Float) (pacing pacing' : Pacing)
    (program : Program) (state : StageState Float) (history : List (Happening (StageState Float)))
    {run : Nat} {result : RunResult}
    (h : ((opening pacing program state).after geometry.scene history).tasks[run]?
      = some (.answered (some result))) :
    ∃ earlier middle rest, history = earlier ++ .request :: (middle ++ .resume run :: rest)
      ∧ let admitted := (opening pacing program state).after geometry.scene earlier
        let completed := admitted.after geometry.scene (.request :: (middle ++ [.resume run]))
        admitted.tasks.length = run ∧ admitted.controller.running = false
          ∧ completed.tasks[run]? = some (.answered (some result))
          ∧ ∃ uses fresh,
              .reset ∉ uses
              ∧ completed.controller.uses = admitted.controller.uses ++ .reset :: uses
              ∧ (opening pacing' admitted.controller.program
                    (StageState.initial geometry)).step geometry.scene .run
                  = .ok (fresh, .result (some result))
              ∧ fresh.controller.uses = .reset :: uses := by
  have hreset : ∀ state, geometry.scene.reset state = StageState.initial geometry := fun _ => rfl
  obtain ⟨earlier, later, rfl, hlength⟩ :=
    exists_request geometry.scene rfl (List.getElem?_eq_some_iff.1 h).1
  have horderly := orderly_after geometry.scene pacing program state earlier
  rw [after_append, after_cons] at h
  obtain ⟨admitted, hadmitted⟩ :
      ∃ admitted, (opening pacing program state).after geometry.scene earlier = admitted := ⟨_, rfl⟩
  rw [hadmitted] at h horderly hlength
  cases hrunning : admitted.controller.running with
  | true =>
    -- The request was rejected, and the run would not have a result.
    have hrejected : (admitted.happen geometry.scene .request).tasks[run]?
        = some (.answered none) := by
      simp [happen, Controller.request, hrunning, ← hlength]
    have hstays : ((admitted.happen geometry.scene .request).after geometry.scene later).tasks[run]?
        = some (.answered none) :=
      after_induction geometry.scene
        (P := fun session => session.tasks[run]? = some (.answered none)) hrejected
        (fun _ happening h => getElem?_tasks_happen_of_not_inFlight h rfl happening) later
    simp [hstays] at h
  | false =>
    have hwaits : (admitted.happen geometry.scene .request).tasks[run]?
        = some (.waiting admitted.controller.program) := by
      simp [happen, Controller.request, hrunning, ← hlength]
    have huses : (admitted.happen geometry.scene .request).controller.uses
        = admitted.controller.uses := by
      simp [happen, Controller.request, hrunning, Controller.uses]
    obtain ⟨task, hcurrent, -, hanswered⟩ :=
      followed_after (horderly.request geometry.scene) hreset hwaits later
    obtain rfl : task = .answered (some result) := Option.some.inj (hcurrent.symm.trans h)
    obtain ⟨middle, rest, rfl, hcompleted, hcourse⟩ := hanswered result rfl
    obtain ⟨hresult, hdone⟩ := hcourse pacing'
    obtain ⟨fresh, hfresh, hfreshuses⟩ := step_run_opening hreset pacing'
      admitted.controller.program (StageState.initial geometry)
    refine ⟨earlier, middle, rest, rfl, ?_⟩
    rw [hadmitted]
    refine ⟨hlength, hrunning, ?_, _, fresh, ?_, ?_, ?_, hfreshuses⟩
    · rw [after_cons, after_append]
      exact hcompleted
    · exact Program.reset_notMem_calls geometry.scene pacing' _ _
    · rw [after_cons, after_append, ← huses]
      exact hdone
    · rw [hfresh, ← hresult]

/-- A program that does nothing, twice. -/
def idleLoop : Program :=
  { name := "idle", blocks := [.start, .loop ⟨2, by decide, by decide⟩ []] }

theorem entryPoints_idleLoop :
    idleLoop.entryPoints = [[.loop ⟨2, by decide, by decide⟩ []]] := by
  rw [Program.entryPoints, Block.entryPoints, idleLoop,
    EntryPoints.toList_of_next?_eq_some (by rw [EntryPoints.next?]),
    EntryPoints.toList_of_next?_eq_none (by simp [EntryPoints.next?])]
  rfl

/-- A run that waits for the scene while its program is replaced, and rests twice while it runs. -/
theorem completed_idleLoop_eq_fresh_run :
    let history : List (Happening (StageState Float)) :=
      [.change StageState.consume, .take, .request, .resume 0, .setProgram {}, .giveBack, .request,
        .resume 0, .elapse 1, .take, .resume 0, .elapse 1, .resume 0]
    let result : RunResult :=
      { program := "idle"
        events := [.started, .repetition 1 2, .repetition 2 2, .finished .exhausted]
        outcome := .exhausted
        entryPoints := 1 }
    let session : Session (StageState Float) :=
      opening ⟨1, 0⟩ idleLoop (StageState.initial Geometry.standard)
    (session.after Geometry.standard.scene history).tasks[0]? = some (.answered (some result))
      ∧ ∃ earlier middle rest uses fresh,
        history = earlier ++ .request :: (middle ++ .resume 0 :: rest)
          ∧ (opening .instant (session.after Geometry.standard.scene earlier).controller.program
                (StageState.initial Geometry.standard)).step Geometry.standard.scene .run
              = .ok (fresh, .result (some result))
          ∧ fresh.controller.uses = .reset :: uses := by
  intro history result session
  have h : (session.after Geometry.standard.scene history).tasks[0]?
      = some (.answered (some result)) := by
    simp [session, history, result, after, opening, happen, modify, taken, changeRun,
      Controller.request]
    simp [Controller.resume, Controller.acquire, Controller.proceed, Execution.start,
      entryPoints_idleLoop]
    simp [Execution.advance, Execution.closing, Walk.turn, Walk.runBlock, Walk.leaveFrame,
      Walk.outcome, Frame.sequence, Frame.loop, Controller.note, EventLog.push, EventLog.clear,
      EventLog.snapshot, idleLoop]
  obtain ⟨earlier, middle, rest, hhistory, -, -, -, uses, fresh, -, -, hfresh, huses⟩ :=
    completed_run_eq_fresh_run Geometry.standard ⟨1, 0⟩ .instant idleLoop
      (StageState.initial Geometry.standard) history h
  exact ⟨h, earlier, middle, rest, uses, fresh, hhistory, hfresh, huses⟩

end Session

end BlockScript
