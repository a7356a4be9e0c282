import BlockScript.Proofs.Controller.Alone
import BlockScript.Proofs.Controller.Independence
import BlockScript.Proofs.Controller.Record
import BlockScript.Proofs.Run.Duration

/-!
# The time of a run

A run takes as long as it rests, and it rests after moves, at the end of iterations, and after the
target has been eaten.  So its time can be told from what it has done: from the moves among its uses
of the scene, from the iterations that its record announces, and from the loops that a success has
left in the middle.

## What is here

* `Session.pacing_after` — the pacing of a session never changes.
* `Session.TimedRun` — the time of a run, with what it has done meanwhile;
  `Session.Orderly.timedRun` says that a run that nobody disturbs takes that time.
* `Session.Recorded.wake_of_resume` — a run is suspended only at rests that take time.
* `Session.Recorded.answered_of_instant` — if no rest takes time, a run is answered at once.
* `Session.run_timing` — **the time of a run**, in every session and after every history.
-/

set_option autoImplicit false
namespace BlockScript

variable {σ : Type}

/-! ## Pacing -/

theorem Controller.pacing_proceed (scene : Scene σ) (now : Nat) (controller : Controller σ)
    (program : Program) (execution : Execution) :
    (controller.proceed scene now program execution).1.pacing = controller.pacing := by
  obtain ⟨done, duration, execution', state, -, -, -, heq⟩ | ⟨course, result, -, -, heq⟩ :=
    controller.proceed_cases scene now program execution <;> rw [heq] <;> rfl

namespace Session

/-- Nothing that happens changes the pacing. -/
theorem pacing_happen (scene : Scene σ) (session : Session σ) (happening : Happening σ) :
    (session.happen scene happening).controller.pacing = session.controller.pacing := by
  obtain ⟨-, hspares⟩ | ⟨run, program, rfl, htask, -, heq⟩ |
      ⟨run, program, execution, wake, rfl, htask, heq⟩ := happen_cases scene session happening
  · exact hspares.pacing
  · rw [happen, changeRun_of_eq_some htask, heq]
    exact Controller.pacing_proceed scene _ _ program _
  · rw [happen, changeRun_of_eq_some htask, heq]
    exact Controller.pacing_proceed scene _ _ program _

/-- **The pacing of a session never changes.** -/
theorem pacing_after (scene : Scene σ) (pacing : Pacing) (program : Program) (state : σ)
    (history : List (Happening σ)) :
    ((opening pacing program state).after scene history).controller.pacing = pacing :=
  @after_induction σ scene (fun session => session.controller.pacing = pacing) _ rfl
    (fun session happening h => (pacing_happen scene session happening).trans h) history

theorem pacing_performAll (scene : Scene σ) (pacing : Pacing) (program : Program) (state : σ)
    (ops : List Op) :
    ((opening pacing program state).performAll scene ops).controller.pacing = pacing := by
  obtain ⟨history, htrimmed⟩ := trimmedFrom_performAll scene pacing program state ops
  obtain ⟨calls, hcontroller⟩ := htrimmed.controller
  rw [hcontroller]
  exact pacing_after scene pacing program state history

/-! ## Runs that nobody disturbs -/

/-- How long a run has taken that leads from one session to the next, with its result, the uses of
the scene that it has made, and the loops that a success has left in the middle. -/
structure TimedRun (scene : Scene σ) (pacing : Pacing) (session next : Session σ)
    (result : RunResult) (made : List (Nat × Scene.Call)) (depth : Nat) : Prop where
  calls : next.controller.calls = session.controller.calls ++ made
  /-- No more loops are left in the middle than iterations were announced. -/
  depth_le : depth ≤ made.countP (·.2.isMove) + result.events.countP Event.isRepetition
  /-- The clock has gone on by one step for every move and for every iteration announced, save those
  iterations that have no end, and by the celebration of a success. -/
  clock : next.clock = session.clock
    + (pacing.step * (made.countP (·.2.isMove) + result.events.countP Event.isRepetition - depth)
      + pacing.celebrates result.succeeded)
  exhausted : result.outcome = .exhausted → depth = 0
  /-- After a success, the loops left in the middle are those around the attempt that has eaten the
  target, in the entry point that was run at the time. -/
  eaten : result.outcome = .succeeded →
    Block.EatenWithin scene pacing session.controller.program.entryPoints
      (scene.reset session.controller.scene) depth
  /-- Without entry points the clock stands still. -/
  aborted : result.aborted = true → next.clock = session.clock

end Session

namespace Session

/-- **A run that nobody disturbs takes its time**: it is answered, and the clock has gone on by its
rests. -/
theorem Orderly.timedRun {session : Session σ} (h : session.Orderly) (scene : Scene σ)
    (hrunning : session.controller.running = false) (hholder : session.controller.holder = none) :
    ∃ next result calls depth, session.step scene .run = .ok (next, .result (some result))
      ∧ TimedRun scene session.controller.pacing session next result calls depth := by
  obtain ⟨course, hcourse⟩ : ∃ course, session.controller.program.performance scene
      session.controller.pacing (scene.reset session.controller.scene) = course := ⟨_, rfl⟩
  obtain ⟨result, hresult⟩ : ∃ result, session.controller.program.result scene
      session.controller.pacing (scene.reset session.controller.scene) = result := ⟨_, rfl⟩
  obtain ⟨rests, depth, hcount, htime, hfailed, heaten⟩ := Program.time_performance scene
    session.controller.pacing session.controller.program (scene.reset session.controller.scene)
  have hstep := h.step_run_eq scene hrunning hholder
  have hevents : result.events.countP Event.isRepetition = Effect.repetitions course.effects := by
    rw [← hresult, Program.result, hcourse]
    rfl
  have houtcome : result.outcome = .ofSuccess course.succeeded := by
    rw [← hresult, Program.result, hcourse]
  have hsucceeded : result.succeeded = course.succeeded := by
    rw [RunResult.succeeded, houtcome]
    cases course.succeeded <;> rfl
  simp only [hcourse, hresult] at hcount htime hfailed heaten hstep
  have hmoves : ((session.clock, .reset)
        :: Timeline.calls (Effect.timeline session.clock course.effects)).countP (·.2.isMove)
      = Effect.moves course.effects := by
    rw [List.countP_cons, Effect.moves, ← Timeline.map_snd_calls session.clock, List.countP_map]
    rfl
  refine ⟨_, result, _, depth, hstep, rfl, ?_, ?_, ?_, ?_, ?_⟩
  · rw [hmoves, hevents]
    omega
  · have hrests : Effect.moves course.effects + Effect.repetitions course.effects - depth
        = rests := by
      omega
    rw [hmoves, hevents, hrests, hsucceeded, ← htime]
  · intro hexhausted
    rw [houtcome] at hexhausted
    cases hover : course.succeeded with
    | false => exact hfailed hover
    | true => simp [hover, Outcome.ofSuccess] at hexhausted
  · intro hsuccess
    rw [houtcome] at hsuccess
    cases hover : course.succeeded with
    | false => simp [hover, Outcome.ofSuccess] at hsuccess
    | true => exact heaten hover
  · intro haborted
    have hnone : session.controller.program.entryPoints = [] := by
      rw [← hresult] at haborted
      simpa [RunResult.aborted, Program.result] using haborted
    rw [Program.performance_eq, if_pos hnone] at hcourse
    rw [← hcourse]
    rfl

end Session

/-! ## Suspensions -/

/-- A run that goes on and comes to rest waits for as long as the pacing says after what is in the
log, and not for nothing. -/
theorem Controller.wake_of_proceed {scene : Scene σ} {now : Nat} (controller : Controller σ)
    {program own : Program} {start : σ} {done : List Effect} {execution execution' : Execution}
    {wake : Nat}
    (h : program.Reaches scene controller.pacing start done execution controller.scene)
    (hlog : controller.log.snapshot = Effect.events done)
    (hrests : (controller.proceed scene now program execution).2 = .resting own execution' wake) :
    ∃ duration, wake = now + duration ∧ duration ≠ 0
      ∧ duration = controller.pacing.restAfter
          (controller.proceed scene now program execution).1.log.snapshot := by
  obtain ⟨⟨effects, state, stop⟩, hadvance⟩ :
      ∃ r, execution.advance scene controller.pacing #[] controller.scene = r := ⟨_, rfl⟩
  cases stop with
  | finished outcome =>
    rw [(Controller.proceed_of_advance_finished program now hadvance).1] at hrests
    simp at hrests
  | resting duration next =>
    rw [Controller.proceed_of_advance_resting now hadvance] at hrests ⊢
    obtain ⟨-, -, rfl⟩ := Task.resting.inj hrests
    have hnext := h.next hadvance
    rw [← List.append_assoc] at hnext
    obtain ⟨hpositive, hduration⟩ := hnext.rest_eq
    refine ⟨duration, rfl, hpositive, ?_⟩
    rwa [noted, EventLog.snapshot_pushAll, hlog, ← Effect.events_append]

namespace Session

/-- A run that is told to go on changes what runs share, and where it stands itself, at the present
time. -/
theorem happen_resume (scene : Scene σ) {session : Session σ} {run : Nat} {task : Task}
    (htask : session.tasks[run]? = some task) :
    let next := session.happen scene (.resume run)
    let change := session.controller.resume scene session.clock task
    next.controller = change.1 ∧ next.tasks[run]? = some change.2 ∧ next.clock = session.clock := by
  intro next change
  have hnext : next = { session with
      controller := change.1, tasks := session.tasks.set run change.2 } :=
    changeRun_of_eq_some htask
  rw [hnext]
  exact ⟨rfl, List.getElem?_set_self (List.getElem?_eq_some_iff.1 htask).1, rfl⟩

section Suspensions

variable {scene : Scene σ} {session : Session σ} {chronicle : List (Milestone σ)}

/-- **A run is suspended only at rests that take time**: if it rests after it was told to go on, it
has not gone on, or it waits for as long as the pacing says after what is in the log, and not for
nothing. -/
theorem Recorded.wake_of_resume (h : session.Recorded scene chronicle) (horderly : session.Orderly)
    {run : Nat} {own : Program} {execution : Execution} {wake : Nat}
    (hrests : (session.happen scene (.resume run)).tasks[run]?
      = some (.resting own execution wake)) :
    session.happen scene (.resume run) = session
      ∨ ∃ duration, wake = session.clock + duration ∧ duration ≠ 0
        ∧ duration = session.controller.pacing.restAfter
            (session.happen scene (.resume run)).controller.log.snapshot := by
  cases htask : session.tasks[run]? with
  | none => exact .inl (by rw [Session.happen, changeRun_of_eq_none htask])
  | some task =>
    obtain ⟨hcontroller, hchanged, -⟩ := happen_resume scene htask
    rw [hchanged] at hrests
    rw [hcontroller]
    obtain ⟨heq, -⟩ | ⟨program, rfl, -, heq⟩ | ⟨program, execution', wake', rfl, heq⟩ :=
      session.controller.resume_cases scene session.clock task
    · exact .inl (changeRun_eq_self htask heq)
    · rw [heq] at hrests ⊢
      exact .inr ((session.controller.acquire scene session.clock).wake_of_proceed .start rfl
        (Option.some.inj hrests))
    · obtain ⟨found, -, -, done, -, hreaches, hlog⟩ := h.goesOn_resting horderly htask
      rw [heq] at hrests ⊢
      exact .inr (session.controller.wake_of_proceed hreaches hlog (Option.some.inj hrests))

/-- If no rest takes time, no run rests. -/
theorem Recorded.holdsScene_of_instant (h : session.Recorded scene chronicle)
    (horderly : session.Orderly) (hstep : session.controller.pacing.step = 0)
    (hcelebration : session.controller.pacing.celebration = 0) {task : Task}
    (hmem : task ∈ session.tasks) : task.holdsScene = false := by
  cases task with
  | waiting program | answered result | cancelled => rfl
  | resting program execution wake =>
    obtain ⟨run, hrun⟩ := List.getElem?_of_mem hmem
    obtain ⟨found, -, -, done, hdone, hreaches, -⟩ := h.goesOn_resting horderly hrun
    obtain ⟨earlier, duration, rfl⟩ := hreaches.exists_rest hdone
    obtain ⟨hpositive, hduration⟩ := hreaches.rest_eq
    rw [Pacing.restAfter, hstep, hcelebration, ite_self] at hduration
    exact absurd hduration hpositive

/-- **If no rest takes time, a run that gets the scene is answered at once**, at the same time. -/
theorem Recorded.answered_of_instant (h : session.Recorded scene chronicle)
    (horderly : session.Orderly) (hstep : session.controller.pacing.step = 0)
    (hcelebration : session.controller.pacing.celebration = 0) {run : Nat} {own : Program}
    (htask : session.tasks[run]? = some (.waiting own))
    (hholder : session.controller.holder = none) :
    let next := session.happen scene (.resume run)
    (∃ result, next.tasks[run]? = some (.answered (some result)))
      ∧ next.clock = session.clock := by
  obtain ⟨-, hchanged, hclock⟩ := happen_resume scene htask
  refine ⟨?_, hclock⟩
  have hpacing := pacing_happen scene session (.resume run)
  have hfree := (h.happen horderly (.resume run)).holdsScene_of_instant
    (horderly.happen scene (.resume run)) (by rw [hpacing, hstep]) (by rw [hpacing, hcelebration])
    (List.mem_of_getElem? hchanged)
  obtain ⟨-, hheld⟩ | ⟨program, hown, -, heq⟩ | ⟨program, execution, wake, hown, -⟩ :=
    session.controller.resume_cases scene session.clock (.waiting own)
  · exact absurd hholder (hheld own rfl)
  · rw [heq] at hchanged hfree
    obtain ⟨done, duration, execution, state, -, -, -, hnext⟩ | ⟨course, result, -, -, hnext⟩ :=
      (session.controller.acquire scene session.clock).proceed_cases scene session.clock program
        (.start program)
    · simp [hnext, Task.holdsScene] at hfree
    · exact ⟨result, by rw [hchanged, hnext]⟩
  · exact absurd hown (by simp)

end Suspensions

/-- **The time of a run.**  In every session, a run that is requested while the scene is free and
awaited at once is answered, and it takes one step of time for every move and for every iteration
announced, save those that a success has left in the middle, and the celebration of a success.
After every history, a run is suspended only at rests that take time, as long as the pacing says
after what it has reported; and if no rest takes time, no run is ever seen in the middle: as soon as
it gets the scene it is answered, at the same time. -/
theorem run_timing (scene : Scene σ) (pacing : Pacing) (program : Program) (state : σ) :
    (∀ ops, let session := (opening pacing program state).performAll scene ops
      session.controller.running = false → session.controller.holder = none →
        ∃ next result made depth, session.step scene .run = .ok (next, .result (some result))
          ∧ TimedRun scene pacing session next result made depth)
      ∧ ∀ history, let session := (opening pacing program state).after scene history
        (∀ run own execution wake, let next := session.happen scene (.resume run)
          next.tasks[run]? = some (.resting own execution wake) →
            next = session
              ∨ ∃ duration, wake = session.clock + duration ∧ duration ≠ 0
                ∧ duration = pacing.restAfter next.controller.log.snapshot)
          ∧ (pacing.step = 0 → pacing.celebration = 0 →
            (∀ task ∈ session.tasks, task.holdsScene = false)
              ∧ ∀ run own, session.tasks[run]? = some (.waiting own) →
                session.controller.holder = none →
                  let next := session.happen scene (.resume run)
                  (∃ result, next.tasks[run]? = some (.answered (some result)))
                    ∧ next.clock = session.clock) := by
  refine ⟨?_, ?_⟩
  · intro ops session hrunning hholder
    have horderly := (steady_performAll scene pacing program state ops).orderly
    have htimed := horderly.timedRun scene hrunning hholder
    rwa [pacing_performAll] at htimed
  · intro history session
    have hrecorded := recorded_after scene pacing program state history
    have horderly := orderly_after scene pacing program state history
    have hpacing := pacing_after scene pacing program state history
    refine ⟨?_, ?_⟩
    · intro run own execution wake next hrests
      have hwake := hrecorded.wake_of_resume horderly hrests
      rwa [hpacing] at hwake
    · intro hstep hcelebration
      rw [← hpacing] at hstep hcelebration
      exact ⟨fun task => hrecorded.holdsScene_of_instant horderly hstep hcelebration,
        fun run own => hrecorded.answered_of_instant horderly hstep hcelebration⟩

/-- A loop with two iterations and nothing in it takes two steps of time and is seen at a rest
after the first; if steps take no time it is over as soon as it gets the scene. -/
theorem time_idleLoop :
    let paced : Session (StageState Float) :=
      opening ⟨1, 0⟩ idleLoop (StageState.initial Geometry.standard)
    let rested := (paced.after Geometry.standard.scene [.request]).happen Geometry.standard.scene
      (.resume 0)
    let instant : Session (StageState Float) :=
      opening .instant idleLoop (StageState.initial Geometry.standard)
    (∃ next result made depth,
        paced.step Geometry.standard.scene .run = .ok (next, .result (some result))
          ∧ TimedRun Geometry.standard.scene ⟨1, 0⟩ paced next result made depth
          ∧ next.clock = 2)
      ∧ (∃ execution duration, rested.tasks[0]? = some (.resting idleLoop execution 1)
          ∧ 1 = 0 + duration ∧ duration ≠ 0
          ∧ duration = Pacing.restAfter ⟨1, 0⟩ rested.controller.log.snapshot)
      ∧ ∃ result, ((instant.after Geometry.standard.scene [.request]).happen
          Geometry.standard.scene (.resume 0)).tasks[0]? = some (.answered (some result)) := by
  intro paced rested instant
  obtain ⟨htimed, hafter⟩ :=
    run_timing Geometry.standard.scene ⟨1, 0⟩ idleLoop (StageState.initial Geometry.standard)
  refine ⟨?_, ?_, ?_⟩
  · obtain ⟨next, result, made, depth, hstep, hnext⟩ := htimed [] rfl rfl
    refine ⟨next, result, made, depth, hstep, hnext, ?_⟩
    have halone := (orderly_opening ⟨1, 0⟩ idleLoop
      (StageState.initial Geometry.standard)).step_run_eq Geometry.standard.scene rfl rfl
    obtain ⟨rfl, -⟩ := Prod.mk.inj (Except.ok.inj (hstep.symm.trans halone))
    have hcourse : ∀ state, idleLoop.course Geometry.standard.scene ⟨1, 0⟩ state
        = ⟨[.emit (.repetition 1 2), .rest 1, .emit (.repetition 2 2), .rest 1], false, state⟩ := by
      intro state
      simp [Program.course, entryPoints_idleLoop, Course.inTurn, Block.meaningAll, Block.meaning,
        List.range', Course.iteration, Course.after, Course.idle]
    simp only [opening, Program.performance_eq, entryPoints_idleLoop, hcourse]
    rfl
  · have hrests : ∃ execution, rested.tasks[0]? = some (.resting idleLoop execution 1) := by
      simp [rested, paced, after, opening, happen, changeRun, Controller.request]
      simp [Controller.resume, Controller.acquire, Controller.proceed, Execution.start,
        entryPoints_idleLoop]
      simp [Execution.advance, Walk.turn, Walk.runBlock, Walk.leaveFrame, Frame.sequence,
        Frame.loop, idleLoop]
    obtain ⟨execution, hrests⟩ := hrests
    obtain heq | ⟨duration, hwake⟩ := (hafter [.request]).1 0 idleLoop execution 1 hrests
    · have hwaits : rested.tasks[0]? = some (.waiting idleLoop) := congrArg (·.tasks[0]?) heq
      rw [hwaits] at hrests
      simp at hrests
    · exact ⟨execution, duration, hrests, hwake⟩
  · obtain ⟨hanswered, -⟩ := ((run_timing Geometry.standard.scene .instant idleLoop
      (StageState.initial Geometry.standard)).2 [.request]).2 rfl rfl |>.2 0 idleLoop rfl rfl
    exact hanswered

end Session

end BlockScript
