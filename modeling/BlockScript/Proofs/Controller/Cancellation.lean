import BlockScript.Proofs.Controller.Record

/-!
# Cancellation

A run can be aborted whenever it does not go on: while it waits for the scene, and at each of its
rests, however deep in loops, the rest after the target has been eaten included.  By then it may
have moved the actor, logged events and even eaten the target, and it never says that it is over.
This file proves that nothing of this gets in the way of anybody: what the run has done stays as it
is, as an undisturbed run would have left it at that rest, and the next run is not affected.

## What is here

* `Session.Happening.touch` — what a change from outside does to the scene;
  `Session.Orderly.waiting_after` says that while a run waits for the scene nothing else changes,
  neither scene nor log nor last result.
* `Session.AbortsCleanly` — what can be relied on when a run is aborted.
* `Session.abort_is_clean` — **an abort is clean**, of any run in flight after any history.
-/

set_option autoImplicit false
namespace BlockScript

variable {σ : Type}

/-- A run that still waits after it was told to go on has changed nothing. -/
theorem Controller.resume_eq_of_waiting {scene : Scene σ} {now : Nat} {controller : Controller σ}
    {task : Task} {own : Program}
    (h : (controller.resume scene now task).2 = .waiting own) :
    controller.resume scene now task = (controller, task) := by
  obtain ⟨heq, -⟩ | ⟨program, -, -, heq⟩ | ⟨program, execution, wake, -, heq⟩ :=
    controller.resume_cases scene now task
  · exact heq
  · rw [heq] at h
    exact absurd h.symm (Controller.waiting_ne_proceed scene now _ _ _ own)
  · rw [heq] at h
    exact absurd h.symm (Controller.waiting_ne_proceed scene now _ _ _ own)

theorem Controller.abort_ne_waiting (controller : Controller σ) {task : Task} {own : Program} :
    (controller.abort task).2 ≠ .waiting own := by
  cases task <;> simp [Controller.abort]

theorem Controller.abort_of_inFlight (controller : Controller σ) {task : Task}
    (h : task.inFlight = true) :
    controller.abort task
      = ({ controller with
            running := false
            holder := if task.holdsScene then none else controller.holder }, .cancelled) := by
  cases task with
  | waiting program => rfl
  | resting program execution wake => rfl
  | answered result => simp [Task.inFlight] at h
  | cancelled => simp [Task.inFlight] at h

namespace Session

/-! ## While a run waits -/

/-- What a happening does to a scene that no run has. -/
def Happening.touch : Happening σ → σ → σ
  | .change meddle, state => meddle state
  | _, state => state

/-- What a history does to a scene that no run has. -/
def touchAll (history : List (Happening σ)) (state : σ) : σ :=
  history.foldl (fun state happening => happening.touch state) state

section Waiting

variable {session : Session σ} {run : Nat} {program : Program}

/-- While a run waits, no run has the scene. -/
theorem Orderly.heldByRun_of_waiting (h : session.Orderly)
    (hwaits : session.tasks[run]? = some (.waiting program)) :
    session.controller.heldByRun = false := by
  cases hheld : session.controller.heldByRun with
  | false => rfl
  | true =>
    have hcount := h.holding
    rw [hheld] at hcount
    obtain ⟨other, hmem, hholds⟩ := List.countP_pos_iff.1 (show 0 < _ by rw [hcount]; decide)
    obtain ⟨place, hplace⟩ := List.mem_iff_getElem?.1 hmem
    by_cases hsame : place = run
    · obtain rfl := Option.some.inj (hwaits.symm.trans (hsame ▸ hplace))
      simp [Task.holdsScene] at hholds
    · rw [h.alone hwaits rfl place other hsame hplace] at hholds
      exact absurd hholds (by decide)

/-- While a run waits, what happens to others changes neither the log nor the last result, and the
scene only from outside. -/
theorem Orderly.happen_of_waiting (h : session.Orderly) (scene : Scene σ)
    (hwaits : session.tasks[run]? = some (.waiting program)) {happening : Happening σ}
    (hresume : happening ≠ .resume run) (habort : happening ≠ .abort run) :
    (session.happen scene happening).controller.log = session.controller.log
      ∧ (session.happen scene happening).controller.lastResult = session.controller.lastResult
      ∧ (session.happen scene happening).controller.scene
          = happening.touch session.controller.scene := by
  have hmem : Task.waiting program ∈ session.tasks := List.mem_of_getElem? hwaits
  cases happening with
  | request =>
    rw [(h.request_of_inFlight scene hmem rfl).2]
    exact ⟨rfl, rfl, rfl⟩
  | resume other =>
    rw [Session.happen, h.changeRun_of_ne hwaits rfl (fun h => hresume (by rw [h]))
      fun task => Controller.resume_of_not_inFlight scene _ session.controller]
    exact ⟨rfl, rfl, rfl⟩
  | abort other =>
    rw [Session.happen, h.changeRun_of_ne hwaits rfl (fun h => habort (by rw [h]))
      fun task => abort_of_not_inFlight session.controller]
    exact ⟨rfl, rfl, rfl⟩
  | elapse duration => exact ⟨rfl, rfl, rfl⟩
  | setProgram program => exact ⟨rfl, rfl, rfl⟩
  | take => rw [Session.happen]; split <;> exact ⟨rfl, rfl, rfl⟩
  | giveBack => rw [Session.happen]; split <;> exact ⟨rfl, rfl, rfl⟩
  | change change =>
    have hholder : session.controller.holder ≠ some .run := by
      intro hheld
      have := h.heldByRun_of_waiting hwaits
      rw [Controller.heldByRun_iff.2 hheld] at this
      exact absurd this (by decide)
    rw [Session.happen, if_neg hholder]
    exact ⟨rfl, rfl, rfl⟩
  | subscribe => exact ⟨rfl, rfl, rfl⟩
  | drain receiver => rw [Session.happen]; split <;> exact ⟨rfl, rfl, rfl⟩

/-- **As long as a run waits, log and last result are as they were when it was admitted**, and the
scene is changed only from outside. -/
theorem Orderly.waiting_after {admitted : Session σ} (h : admitted.Orderly) (scene : Scene σ)
    (hwaits : admitted.tasks[run]? = some (.waiting program)) (middle : List (Happening σ)) :
    ∃ task, (admitted.after scene middle).tasks[run]? = some task
      ∧ ∀ own, task = .waiting own →
        (admitted.after scene middle).controller.log = admitted.controller.log
          ∧ (admitted.after scene middle).controller.lastResult = admitted.controller.lastResult
          ∧ (admitted.after scene middle).controller.scene
              = touchAll middle admitted.controller.scene := by
  induction middle using List.reverseRecOn with
  | nil => exact ⟨_, hwaits, fun _ _ => ⟨rfl, rfl, rfl⟩⟩
  | append_singleton middle happening ih =>
    obtain ⟨task, htask, hkept⟩ := ih
    have horderly := h.of_leadsTo ⟨middle, (rfl : admitted.after scene middle = _)⟩
    rw [after_append, after_cons, after_nil]
    have hself : ∀ next : Task,
        ((admitted.after scene middle).tasks.set run next)[run]? = some next :=
      fun next => List.getElem?_set_self (List.getElem?_eq_some_iff.1 htask).1
    by_cases hresume : happening = .resume run
    · subst hresume
      have hnext : (admitted.after scene middle).happen scene (.resume run) = _ :=
        changeRun_of_eq_some htask
      refine ⟨_, by rw [hnext]; exact hself _, fun own hown => ?_⟩
      have hsame := Controller.resume_eq_of_waiting hown
      rw [hsame] at hown
      rw [Session.happen, changeRun_eq_self htask hsame, touchAll, List.foldl_append]
      exact hkept own hown
    · by_cases habort : happening = .abort run
      · subst habort
        have hnext : (admitted.after scene middle).happen scene (.abort run) = _ :=
          changeRun_of_eq_some htask
        refine ⟨_, by rw [hnext]; exact hself _, fun own hown => ?_⟩
        exact absurd hown (Controller.abort_ne_waiting _)
      · refine ⟨task, getElem?_tasks_happen htask hresume habort, fun own hown => ?_⟩
        subst hown
        obtain ⟨hlog, hlast, hscene⟩ := hkept own rfl
        obtain ⟨hlog', hlast', hscene'⟩ :=
          horderly.happen_of_waiting scene htask hresume habort
        refine ⟨hlog'.trans hlog, hlast'.trans hlast, ?_⟩
        rw [hscene', hscene, touchAll, touchAll, List.foldl_append]
        rfl

end Waiting

/-! ## Aborts -/

/-- What can be relied on when a run is aborted that was admitted in one session and is in flight in
a later one, with some happenings in between. -/
structure AbortsCleanly (geometry : Geometry Float) (admitted : Session (StageState Float))
    (middle : List (Happening (StageState Float))) (before : Session (StageState Float)) (run : Nat)
    (task : Task) (aborted : Session (StageState Float)) : Prop where
  /-- No run is in flight, and the run does not have the scene any more.  Nothing else has changed:
  scene, log, last result and program are as they were. -/
  controller : aborted.controller
    = { before.controller with
        running := false
        holder := if task.holdsScene then none else before.controller.holder }
  tasks : aborted.tasks = before.tasks.set run .cancelled
  free : aborted.controller.heldByRun = false
  /-- A run that was still waiting has changed nothing since it was admitted. -/
  waiting : ∀ own, task = .waiting own →
    aborted.controller.log = admitted.controller.log
      ∧ aborted.controller.lastResult = admitted.controller.lastResult
      ∧ aborted.controller.scene = touchAll middle admitted.controller.scene
  /-- A run that was resting leaves scene and log as a run of the program that was installed when it
  was admitted leaves them if it is alone, once that comes to the same rest. -/
  resting : ∀ own execution wake, task = .resting own execution wake →
    own = admitted.controller.program
      ∧ ∃ time wake',
        let alone := (opening before.controller.pacing own (StageState.initial geometry)).performAll
          geometry.scene [.start, .wait time]
        time < wake' ∧ alone.tasks = [.resting own execution wake']
          ∧ aborted.controller.scene = alone.controller.scene
          ∧ aborted.controller.log.snapshot = alone.controller.log.snapshot
  /-- The next request is admitted. -/
  nextRequest : aborted.happen geometry.scene .request
    = { aborted with
        controller := { aborted.controller with running := true }
        tasks := aborted.tasks ++ [.waiting aborted.controller.program] }
  /-- If the scene is free and the next run is awaited at once, it is completed with the result of a
  fresh controller. -/
  nextRun : aborted.controller.holder = none →
    ∃ next result, aborted.step geometry.scene .run = .ok (next, .result (some result))
      ∧ ∀ pacing, ∃ fresh,
        (opening pacing aborted.controller.program (StageState.initial geometry)).step
          geometry.scene .run = .ok (fresh, .result (some result))
  /-- Whatever happens after that request, if the next run is completed it has that result. -/
  nextCompleted : ∀ later result,
    (aborted.after geometry.scene (.request :: later)).tasks[before.tasks.length]?
      = some (.answered (some result)) →
    ∀ pacing, ∃ fresh,
      (opening pacing aborted.controller.program (StageState.initial geometry)).step
        geometry.scene .run = .ok (fresh, .result (some result))

/-- A run is admitted when no other is in flight. -/
theorem happen_request_of_free (scene : Scene σ) {session : Session σ}
    (h : session.controller.running = false) :
    session.happen scene .request
      = { session with
          controller := { session.controller with running := true }
          tasks := session.tasks ++ [.waiting session.controller.program] } := by
  simp [Session.happen, Controller.request, h]

/-- An abort ends a run in flight and gives the scene back, and that is all. -/
theorem happen_abort_of_inFlight {scene : Scene σ} {session : Session σ} {run : Nat} {task : Task}
    (htask : session.tasks[run]? = some task) (hflight : task.inFlight = true) :
    session.happen scene (.abort run)
      = { session with
          controller := { session.controller with
            running := false
            holder := if task.holdsScene then none else session.controller.holder }
          tasks := session.tasks.set run .cancelled } := by
  rw [Session.happen, changeRun_of_eq_some htask, Controller.abort_of_inFlight _ hflight]

/-- A run that has been aborted does not have the scene. -/
theorem Orderly.heldByRun_abort {session : Session σ} (h : session.Orderly) (scene : Scene σ)
    {run : Nat} {task : Task} (htask : session.tasks[run]? = some task)
    (hflight : task.inFlight = true) :
    (session.happen scene (.abort run)).controller.heldByRun = false := by
  rw [happen_abort_of_inFlight htask hflight]
  cases task with
  | waiting own => exact h.heldByRun_of_waiting htask
  | resting own execution wake => rfl
  | answered result => simp [Task.inFlight] at hflight
  | cancelled => simp [Task.inFlight] at hflight

/-- **A rest of a run is a rest of an undisturbed one**: a run of the same program that is alone
comes to it when time passes, and leaves the scene and the log as they are here. -/
theorem Recorded.exists_alone {scene : Scene σ} {start : σ}
    (hreset : ∀ state, scene.reset state = start) {chronicle : List (Milestone σ)}
    {session : Session σ} (h : session.Recorded scene chronicle) {run wake : Nat}
    {program : Program} {execution : Execution}
    (htask : session.tasks[run]? = some (.resting program execution wake)) :
    ∃ time wake',
      let alone := (opening session.controller.pacing program start).performAll scene
        [.start, .wait time]
      time < wake' ∧ alone.tasks = [.resting program execution wake']
        ∧ session.controller.scene = alone.controller.scene
        ∧ session.controller.log.snapshot = alone.controller.log.snapshot := by
  obtain ⟨own, found, hlast⟩ := h.holding run _ htask rfl
  obtain ⟨task, htask', hstands⟩ := h.stands run own found hlast
  obtain rfl := Option.some.inj (htask.symm.trans htask')
  obtain ⟨rfl, done, hdone, hreaches, hlog⟩ := hstands
  rw [hreset found, ← hreset start] at hreaches
  obtain ⟨time, hrest⟩ := exists_atRest hreaches hdone
  obtain ⟨wake', htasks, hwake⟩ := hrest.tasks
  have halone : ∀ fresh : Session σ, (fresh.request scene).clock = 0 →
      fresh.performAll scene [.start, .wait time] = (fresh.request scene).elapseTo scene time := by
    intro fresh hclock
    simp only [performAll, List.foldl_cons, List.foldl_nil, perform, step]
    rw [hclock, Nat.zero_add]
  refine ⟨time, wake', ?_⟩
  rw [halone _ rfl]
  exact ⟨hwake, htasks, hrest.scene.symm, hlog.trans hrest.log.symm⟩

section Completed

variable {scene : Scene σ} {start : σ} {session : Session σ}

/-- A run that is admitted and completed has the result of a fresh controller, whatever happens in
between. -/
theorem Orderly.fresh_of_completed (h : session.Orderly)
    (hreset : ∀ state, scene.reset state = start) {run : Nat} {program : Program}
    (hwaits : session.tasks[run]? = some (.waiting program)) {later : List (Happening σ)}
    {result : RunResult}
    (hanswered : (session.after scene later).tasks[run]? = some (.answered (some result)))
    (pacing : Pacing) (state : σ) :
    ∃ fresh, (opening pacing program state).step scene .run
      = .ok (fresh, .result (some result)) := by
  obtain ⟨task, hfollowed⟩ := followed_after h hreset hwaits later
  obtain rfl := Option.some.inj (hfollowed.current.symm.trans hanswered)
  obtain ⟨middle, rest, -, -, hcourse⟩ := hfollowed.answered result rfl
  obtain ⟨fresh, hfresh, -⟩ := step_run_opening hreset pacing program state
  exact ⟨fresh, by rw [hfresh, (hcourse pacing).1]⟩

end Completed

/-- A run that has ever been in flight was admitted when it was requested. -/
theorem admitted_of_inFlight {scene : Scene σ} {session : Session σ} {run : Nat} {task : Task}
    (hlength : session.tasks.length = run) {later : List (Happening σ)}
    (htask : (session.after scene (.request :: later)).tasks[run]? = some task)
    (hflight : task.inFlight = true) :
    session.controller.running = false
      ∧ session.happen scene .request
        = { session with
            controller := { session.controller with running := true }
            tasks := session.tasks ++ [.waiting session.controller.program] } := by
  cases hrunning : session.controller.running with
  | false => exact ⟨rfl, happen_request_of_free scene hrunning⟩
  | true =>
    have hrejected : (session.happen scene .request).tasks[run]? = some (.answered none) := by
      simp [Session.happen, Controller.request, hrunning, ← hlength]
    have hstays : (session.after scene (.request :: later)).tasks[run]? = some (.answered none) :=
      after_induction scene (P := fun session => session.tasks[run]? = some (.answered none))
        hrejected (fun _ happening h => getElem?_tasks_happen_of_not_inFlight h rfl happening) later
    obtain rfl := Option.some.inj (hstays.symm.trans htask)
    exact absurd hflight (by decide)

section Stage

variable {geometry : Geometry Float} {admitted before : Session (StageState Float)} {run : Nat}
  {task : Task} {middle : List (Happening (StageState Float))}

/-- A run that was admitted and is in flight is aborted cleanly. -/
theorem Orderly.abortsCleanly (h : admitted.Orderly) (hlength : admitted.tasks.length = run)
    (hrequest : admitted.happen geometry.scene .request
      = { admitted with
          controller := { admitted.controller with running := true }
          tasks := admitted.tasks ++ [.waiting admitted.controller.program] })
    (hbefore : admitted.after geometry.scene (.request :: middle) = before)
    {chronicle : List (Milestone (StageState Float))}
    (hrecorded : before.Recorded geometry.scene chronicle)
    (htask : before.tasks[run]? = some task) (hflight : task.inFlight = true) :
    AbortsCleanly geometry admitted middle before run task
      (before.happen geometry.scene (.abort run)) := by
  have hreset : ∀ state, geometry.scene.reset state = StageState.initial geometry := fun _ => rfl
  have hadmitted := h.request geometry.scene
  have hwaits : (admitted.happen geometry.scene .request).tasks[run]?
      = some (.waiting admitted.controller.program) := by simp [hrequest, ← hlength]
  have horderly : before.Orderly := h.of_leadsTo ⟨_, hbefore.symm⟩
  have haborted := horderly.happen geometry.scene (.abort run)
  have hheld := horderly.heldByRun_abort geometry.scene htask hflight
  obtain ⟨aborted, heq⟩ : ∃ aborted, before.happen geometry.scene (.abort run) = aborted := ⟨_, rfl⟩
  have hsession := heq.symm.trans (happen_abort_of_inFlight htask hflight)
  rw [heq] at haborted hheld ⊢
  have hrunning : aborted.controller.running = false := by rw [hsession]
  have hnext := happen_request_of_free geometry.scene hrunning
  constructor
  case controller => rw [hsession]
  case tasks => rw [hsession]
  case free => exact hheld
  case waiting =>
    intro own hown
    obtain ⟨still, hstill, hkept⟩ := hadmitted.waiting_after geometry.scene hwaits middle
    rw [show (admitted.happen geometry.scene .request).after geometry.scene middle = before
      from hbefore] at hstill hkept
    obtain rfl := Option.some.inj (htask.symm.trans hstill)
    rw [hrequest] at hkept
    simpa only [hsession] using hkept own hown
  case resting =>
    rintro own execution wake rfl
    obtain ⟨followed, hfollowed⟩ := followed_after hadmitted hreset hwaits middle
    have hcurrent := hfollowed.current
    rw [show (admitted.happen geometry.scene .request).after geometry.scene middle = before
      from hbefore] at hcurrent
    obtain rfl := Option.some.inj (htask.symm.trans hcurrent)
    refine ⟨(hfollowed.onCourse rfl).1, ?_⟩
    simpa only [hsession] using hrecorded.exists_alone hreset htask
  case nextRequest => exact hnext
  case nextRun =>
    intro hholder
    obtain ⟨next, hrun⟩ := haborted.step_run geometry.scene hrunning hholder .instant
    refine ⟨next, _, hrun, ?_⟩
    intro pacing
    have hopening := orderly_opening pacing aborted.controller.program (StageState.initial geometry)
    exact hopening.step_run geometry.scene rfl rfl .instant
  case nextCompleted =>
    intro later result hanswered pacing
    have hplace : before.tasks.length = aborted.tasks.length := by simp [hsession]
    have hwaits' : (aborted.happen geometry.scene .request).tasks[before.tasks.length]?
        = some (.waiting aborted.controller.program) := by
      rw [hnext, hplace]
      simp
    exact (haborted.request geometry.scene).fresh_of_completed hreset hwaits' hanswered pacing _

/-- **An abort is clean.**  Take any history of a controller with a stage, and any run that is in
flight after it, waiting for the scene or at a rest.  The run was admitted at some moment, and when
it is aborted it leaves everything as it was then or as an undisturbed run would leave it, and the
next run is not affected. -/
theorem abort_is_clean (geometry : Geometry Float) (pacing : Pacing) (program : Program)
    (state : StageState Float) (history : List (Happening (StageState Float))) {run : Nat}
    {task : Task}
    (htask : ((opening pacing program state).after geometry.scene history).tasks[run]? = some task)
    (hflight : task.inFlight = true) :
    ∃ earlier middle, history = earlier ++ .request :: middle
      ∧ let admitted := (opening pacing program state).after geometry.scene earlier
        let before := (opening pacing program state).after geometry.scene history
        admitted.tasks.length = run ∧ admitted.controller.running = false
          ∧ AbortsCleanly geometry admitted middle before run task
              (before.happen geometry.scene (.abort run)) := by
  obtain ⟨earlier, middle, rfl, hlength⟩ :=
    exists_request geometry.scene rfl (List.getElem?_eq_some_iff.1 htask).1
  have horderly := orderly_after geometry.scene pacing program state earlier
  have hrecorded := recorded_after geometry.scene pacing program state
    (earlier ++ .request :: middle)
  have hbefore : ((opening pacing program state).after geometry.scene earlier).after geometry.scene
      (.request :: middle)
        = (opening pacing program state).after geometry.scene (earlier ++ .request :: middle) :=
    (after_append ..).symm
  obtain ⟨hrunning, hrequest⟩ := admitted_of_inFlight hlength (hbefore ▸ htask) hflight
  refine ⟨earlier, middle, rfl, hlength, hrunning, ?_⟩
  exact horderly.abortsCleanly hlength hrequest hbefore hrecorded htask hflight

/-- A run that is aborted at its second rest, in the second iteration of a loop. -/
theorem aborted_idleLoop :
    let history : List (Happening (StageState Float)) :=
      [.change StageState.consume, .request, .resume 0, .setProgram {}, .elapse 1, .resume 0]
    let session : Session (StageState Float) :=
      opening ⟨1, 0⟩ idleLoop (StageState.initial Geometry.standard)
    let before := session.after Geometry.standard.scene history
    ∃ execution,
      before.tasks[0]? = some (.resting idleLoop execution 2)
        ∧ before.controller.log.snapshot = [.started, .repetition 1 2, .repetition 2 2]
        ∧ ∃ earlier middle, history = earlier ++ .request :: middle
          ∧ AbortsCleanly Geometry.standard (session.after Geometry.standard.scene earlier) middle
              before 0 (.resting idleLoop execution 2)
              (before.happen Geometry.standard.scene (.abort 0)) := by
  intro history session before
  have h : ∃ execution, before.tasks[0]? = some (.resting idleLoop execution 2)
      ∧ before.controller.log.snapshot = [.started, .repetition 1 2, .repetition 2 2] := by
    simp [before, session, history, after, opening, happen, modify, changeRun, Controller.request]
    simp [Controller.resume, Controller.acquire, Controller.proceed, Execution.start,
      entryPoints_idleLoop]
    simp [Execution.advance, Walk.turn, Walk.runBlock, Walk.leaveFrame, Frame.sequence, Frame.loop,
      Controller.note, EventLog.push, EventLog.clear, EventLog.snapshot, idleLoop]
  obtain ⟨execution, htask, hlog⟩ := h
  obtain ⟨earlier, middle, hhistory, -, -, hclean⟩ :=
    abort_is_clean Geometry.standard ⟨1, 0⟩ idleLoop (StageState.initial Geometry.standard) history
      htask rfl
  exact ⟨execution, htask, hlog, earlier, middle, hhistory, hclean⟩

end Stage

end Session

end BlockScript
