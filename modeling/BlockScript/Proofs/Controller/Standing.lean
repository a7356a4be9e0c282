import BlockScript.Proofs.Controller.Operations
import BlockScript.Proofs.Run.Suspension

/-!
# Where a run stands

Between two things that happen to a controller, a run that has got the scene is at a rest, answered
or aborted.  At a rest the scene and the log are what the run had made of them when it came there,
and the log outlives the run: nobody else touches it before another run gets the scene.  This file
says so of a single run, and of a session in which it is alone.

## What is here

* `Task.Stands` — what a run that has got the scene has left behind so far; `Task.stands_acquire`
  and `Task.stands_resume` say that it stands there when it gets the scene, and each time that it
  goes on.
* `Session.Orderly.step_run` — a run that is requested while the scene is free and awaited at once
  answers the result of an undisturbed run.
* `Session.exists_atRest` — a run that is left alone comes to each of its rests when time passes.
-/

set_option autoImplicit false
namespace BlockScript

variable {σ : Type} {scene : Scene σ} {program : Program} {start : σ}

/-! ## Single runs -/

theorem Controller.proceed_of_advance_resting (now : Nat) {controller : Controller σ}
    {execution execution' : Execution} {effects : Array Effect} {state : σ} {duration : Nat}
    (h : execution.advance scene controller.pacing #[] controller.scene
      = (effects, state, .resting duration execution')) :
    controller.proceed scene now program execution
      = (controller.noted now effects.toList state,
        .resting program execution' (now + duration)) := by
  simp only [proceed, h, foldl_note_array]

/-- Where a run of a program stands that has got the scene and reset it to a given state: at a rest,
where the scene and the log are as it has made them, or answered, with its record in the log, or
aborted, with the log as it was at a rest. -/
def Task.Stands (scene : Scene σ) (program : Program) (start : σ) (controller : Controller σ) :
    Task → Prop
  | .waiting _ => False
  | .resting own execution _ =>
    own = program ∧ ∃ done, done ≠ []
      ∧ program.Reaches scene controller.pacing start done execution controller.scene
      ∧ controller.log.snapshot = Effect.events done
  | .answered result =>
    result = some (program.result scene controller.pacing start)
      ∧ controller.log.snapshot = (program.result scene controller.pacing start).events
  | .cancelled =>
    ∃ done execution state, done ≠ []
      ∧ program.Reaches scene controller.pacing start done execution state
      ∧ controller.log.snapshot = Effect.events done

section Kept

variable {controller controller' : Controller σ} {task : Task}

/-- A run still stands where it did if the pacing, the log, and the scene that it has are kept. -/
theorem Task.Stands.of_eq (h : task.Stands scene program start controller)
    (hpacing : controller'.pacing = controller.pacing) (hlog : controller'.log = controller.log)
    (hscene : task.holdsScene = true → controller'.scene = controller.scene) :
    task.Stands scene program start controller' := by
  cases task with
  | waiting own => exact h.elim
  | resting own execution wake => rwa [Stands, hpacing, hlog, hscene rfl]
  | answered result => rwa [Stands, hpacing, hlog]
  | cancelled => rwa [Stands, hpacing, hlog]

/-- A run that is aborted leaves the log as it was at its rest. -/
theorem Task.Stands.cancelled (h : task.Stands scene program start controller)
    (hflight : task.inFlight = true) (hpacing : controller'.pacing = controller.pacing)
    (hlog : controller'.log = controller.log) :
    Task.cancelled.Stands scene program start controller' := by
  cases task with
  | waiting own => exact h.elim
  | resting own execution wake =>
    obtain ⟨rfl, done, hdone, hreaches, hsnapshot⟩ := h
    rw [Stands, hpacing, hlog]
    exact ⟨done, execution, controller.scene, hdone, hreaches, hsnapshot⟩
  | answered result => simp [Task.inFlight] at hflight
  | cancelled => simp [Task.inFlight] at hflight

end Kept

/-- **The log of a run is a beginning of its record**, and has the end of it only if the run is
answered. -/
theorem Task.Stands.log {controller : Controller σ} {task : Task}
    (h : task.Stands scene program start controller) :
    controller.log.snapshot <+: (program.result scene controller.pacing start).events
      ∧ ∀ event ∈ controller.log.snapshot, event.isTerminal = true →
          task = .answered (some (program.result scene controller.pacing start)) := by
  have hrest : ∀ (done : List Effect) (execution : Execution) (state : σ),
      program.Reaches scene controller.pacing start done execution state →
      controller.log.snapshot = Effect.events done →
      controller.log.snapshot <+: (program.result scene controller.pacing start).events
        ∧ ∀ event ∈ controller.log.snapshot, event.isTerminal = false := by
    intro done execution state hreaches hlog
    rw [hlog]
    exact ⟨hreaches.prefix_events, fun event => hreaches.isTerminal_eq_false⟩
  cases task with
  | waiting own => exact h.elim
  | resting own execution wake =>
    obtain ⟨-, done, -, hreaches, hlog⟩ := h
    obtain ⟨hbegins, hopen⟩ := hrest done execution _ hreaches hlog
    exact ⟨hbegins, fun event hevent hend => by simp [hopen event hevent] at hend⟩
  | answered result =>
    obtain ⟨rfl, hlog⟩ := h
    exact ⟨hlog ▸ List.prefix_refl _, fun _ _ _ => rfl⟩
  | cancelled =>
    obtain ⟨done, execution, state, -, hreaches, hlog⟩ := h
    obtain ⟨hbegins, hopen⟩ := hrest done execution state hreaches hlog
    exact ⟨hbegins, fun event hevent hend => by simp [hopen event hevent] at hend⟩

/-- A run that holds the scene and goes on stands at its next rest, or it is answered. -/
theorem Task.stands_proceed (now : Nat) {controller : Controller σ} {done : List Effect}
    {execution : Execution}
    (h : program.Reaches scene controller.pacing start done execution controller.scene)
    (hlog : controller.log.snapshot = Effect.events done) :
    (controller.proceed scene now program execution).2.Stands scene program start
      (controller.proceed scene now program execution).1 := by
  obtain ⟨⟨effects, state, stop⟩, hadvance⟩ :
      ∃ r, execution.advance scene controller.pacing #[] controller.scene = r := ⟨_, rfl⟩
  cases stop with
  | resting duration execution' =>
    rw [Controller.proceed_of_advance_resting now hadvance]
    refine ⟨rfl, _, by simp, h.next hadvance, ?_⟩
    show (controller.log.pushAll (Effect.events effects.toList)).snapshot = _
    rw [EventLog.snapshot_pushAll, hlog]
    simp
  | finished outcome =>
    obtain ⟨more, duration, execution', state', -, -, -, hrest⟩ |
        ⟨course, result, hcourse, hresult, hend⟩ :=
      controller.proceed_cases scene now program execution
    · simp [Controller.proceed, hadvance] at hrest
    · have hwhole := h.lasting_performance.trans (congrArg (Course.after done) hcourse)
      have hevents : (program.result scene controller.pacing start).events
          = Effect.events done ++ Effect.events course.effects := by
        rw [Program.result, ← Effect.events_lasting, ← Effect.events_append]
        exact congrArg (fun course => Effect.events course.effects) hwhole
      have hsucceeded : (program.performance scene controller.pacing start).succeeded
          = course.succeeded := congrArg (fun course => course.succeeded) hwhole
      rw [hend]
      constructor
      · show some result = some (program.result scene controller.pacing start)
        rw [hresult, Controller.concluded, hlog, ← hevents, h.entryPoints_eq, ← hsucceeded]
        rfl
      · show (controller.log.pushAll (Effect.events course.effects)).snapshot
            = (program.result scene controller.pacing start).events
        rw [EventLog.snapshot_pushAll, hlog, hevents]

/-- A run that gets the scene stands at its first rest, or it is answered at once. -/
theorem Task.stands_acquire (now : Nat) (controller : Controller σ) :
    ((controller.acquire scene now).proceed scene now program (.start program)).2.Stands scene
      program (scene.reset controller.scene)
      ((controller.acquire scene now).proceed scene now program (.start program)).1 :=
  Task.stands_proceed now .start rfl

/-- **A run that goes on stands where it has come to.** -/
theorem Task.stands_resume (now : Nat) {controller : Controller σ} {task : Task}
    (h : task.Stands scene program start controller) :
    (controller.resume scene now task).2.Stands scene program start
      (controller.resume scene now task).1 := by
  obtain ⟨heq, -⟩ | ⟨own, rfl, -, -⟩ | ⟨own, execution, wake, rfl, heq⟩ :=
    controller.resume_cases scene now task
  · rwa [heq]
  · exact h.elim
  · obtain ⟨rfl, done, -, hreaches, hlog⟩ := h
    rw [heq]
    exact Task.stands_proceed now hreaches hlog

/-- A run that goes on is not aborted by this. -/
theorem Controller.eq_cancelled_of_resume (scene : Scene σ) (now : Nat)
    (controller : Controller σ) {task : Task}
    (h : (controller.resume scene now task).2 = .cancelled) : task = .cancelled := by
  have hproceed : ∀ (controller : Controller σ) (program : Program) (execution : Execution),
      (controller.proceed scene now program execution).2 ≠ .cancelled := by
    intro controller program execution
    obtain ⟨done, duration, execution', state, -, -, -, heq⟩ | ⟨course, result, -, -, heq⟩ :=
      controller.proceed_cases scene now program execution <;> simp [heq]
  obtain ⟨heq, -⟩ | ⟨program, rfl, -, heq⟩ | ⟨program, execution, wake, rfl, heq⟩ :=
    controller.resume_cases scene now task
  · rwa [heq] at h
  · rw [heq] at h
    exact absurd h (hproceed _ _ _)
  · rw [heq] at h
    exact absurd h (hproceed _ _ _)

namespace Session

/-! ## Runs that are awaited at once -/

theorem resumeAll_append_singleton (now : Nat) (controller : Controller σ) {earlier : List Task}
    (h : ∀ other ∈ earlier, other.inFlight = false) (task : Task) :
    controller.resumeAll scene now (earlier ++ [task])
      = ((controller.resume scene now task).1,
        earlier ++ [(controller.resume scene now task).2]) := by
  induction earlier with
  | nil => rfl
  | cons first earlier ih =>
    rw [List.cons_append, Controller.resumeAll_cons,
      Controller.resume_of_not_inFlight scene now controller (h first (by simp)),
      ih fun other hmem => h other (by simp [hmem])]
    rfl

/-- The run that was requested last stands somewhere, and all others are over. -/
structure LastStands (scene : Scene σ) (program : Program) (start : σ) (session : Session σ)
    (earlier : List Task) (task : Task) : Prop where
  tasks : session.tasks = earlier ++ [task]
  others : ∀ other ∈ earlier, other.inFlight = false
  stands : task.Stands scene program start session.controller
  ne_cancelled : task ≠ .cancelled

section LastStands

variable {session : Session σ} {earlier : List Task}

theorem LastStands.settle {task : Task} (h : session.LastStands scene program start earlier task) :
    (session.settle scene).LastStands scene program start earlier
      (session.controller.resume scene session.clock task).2 where
  tasks := by rw [Session.settle, h.tasks, resumeAll_append_singleton _ _ h.others]
  others := h.others
  stands := by
    rw [Session.settle, h.tasks, resumeAll_append_singleton _ _ h.others]
    exact Task.stands_resume session.clock h.stands
  ne_cancelled heq :=
    h.ne_cancelled (Controller.eq_cancelled_of_resume scene session.clock session.controller heq)

theorem LastStands.runOut (h : ∃ task, session.LastStands scene program start earlier task) :
    ∃ task, (session.runOut scene).LastStands scene program start earlier task := by
  fun_induction Session.runOut scene session with
  | case1 session hwake => exact h
  | case2 session wake hwake ih =>
    obtain ⟨task, h⟩ := h
    have hnow : LastStands scene program start { session with clock := max session.clock wake }
        earlier task := ⟨h.tasks, h.others, h.stands, h.ne_cancelled⟩
    exact ih ⟨_, hnow.settle⟩

/-- While no run is in flight, a run that is requested gets the scene at once if it is free. -/
theorem Orderly.lastStands_request (h : session.Orderly) (scene : Scene σ)
    (hrunning : session.controller.running = false) (hholder : session.controller.holder = none) :
    ∃ task, (session.request scene).LastStands scene session.controller.program
      (scene.reset session.controller.scene) session.tasks task := by
  have hover : ∀ other ∈ session.tasks, other.inFlight = false := by
    intro other hmem
    cases hflight : other.inFlight with
    | false => rfl
    | true =>
      rw [h.running_of_inFlight hmem hflight] at hrunning
      exact absurd hrunning (by decide)
  obtain ⟨admitted, hadmitted⟩ :
      ∃ admitted, { session.controller with running := true } = admitted := ⟨_, rfl⟩
  have hrequest : session.request scene
      = settle scene { session with
          controller := admitted
          tasks := session.tasks ++ [.waiting session.controller.program] } := by
    simp [Session.request, Controller.request, hrunning, hadmitted]
  have hresume : admitted.resume scene session.clock (.waiting session.controller.program)
      = (admitted.acquire scene session.clock).proceed scene session.clock
          session.controller.program (.start session.controller.program) := by
    simp [← hadmitted, Controller.resume, hholder]
  rw [hrequest]
  refine ⟨(admitted.resume scene session.clock (.waiting session.controller.program)).2, ?_, hover,
    ?_, ?_⟩
  · simp only [Session.settle, resumeAll_append_singleton _ _ hover]
  · simp only [Session.settle, resumeAll_append_singleton _ _ hover]
    rw [hresume, show session.controller.scene = admitted.scene by rw [← hadmitted]]
    exact Task.stands_acquire session.clock admitted
  · intro heq
    exact absurd (Controller.eq_cancelled_of_resume scene session.clock admitted heq) (by simp)

/-- **A run that is requested while the scene is free and awaited at once is answered**, with the
result of an undisturbed run. -/
theorem Orderly.step_run (h : session.Orderly) (scene : Scene σ)
    (hrunning : session.controller.running = false) (hholder : session.controller.holder = none)
    (pacing : Pacing) :
    ∃ next, session.step scene .run
      = .ok (next, .result (some (session.controller.program.result scene pacing
          (scene.reset session.controller.scene)))) := by
  have htaken : session.taken = false := by simp [taken, hholder]
  obtain ⟨task, hlast⟩ :=
    LastStands.runOut (h.lastStands_request scene hrunning hholder)
  have hover : task.inFlight = false :=
    (h.request scene).steady_settle.not_inFlight_runOut (taken_request htaken) (by
      rw [← request_eq_settle, hlast.tasks]
      simp)
  have hstands := hlast.stands
  cases task with
  | waiting own => exact hstands.elim
  | resting own execution wake => simp [Task.inFlight] at hover
  | cancelled => exact absurd rfl hlast.ne_cancelled
  | answered result =>
    obtain ⟨rfl, -⟩ := hstands
    refine ⟨{ (session.request scene).runOut scene with
      tasks := ((session.request scene).runOut scene).tasks.dropLast }, ?_⟩
    rw [step, runNow_of_free hrunning htaken, hlast.tasks, List.getLast?_concat,
      Program.result_eq_result scene _ pacing]
    rfl

end LastStands

/-! ## Runs that are left alone -/

/-- Time passes, and no rest is over. -/
theorem elapseTo_of_not_due {session : Session σ} {target : Nat}
    (h : ∀ wake, session.nextWake? = some wake → ¬ (session.clock < wake ∧ wake ≤ target)) :
    session.elapseTo scene target = { session with clock := max session.clock target } := by
  rw [elapseTo]
  split
  · rfl
  · rename_i wake hwake
    exact dif_neg (h wake hwake)

/-- Time passes up to the end of a rest, and the runs go on. -/
theorem elapseTo_of_due {session : Session σ} {target wake : Nat}
    (hwake : session.nextWake? = some wake) (h : session.clock < wake ∧ wake ≤ target) :
    session.elapseTo scene target
      = elapseTo scene target (settle scene { session with clock := wake }) := by
  rw [elapseTo]
  split
  · rename_i hother
    rw [hwake] at hother
    exact absurd hother (by simp)
  · rename_i other hother
    obtain rfl : wake = other := Option.some.inj (hwake.symm.trans hother)
    exact dif_pos h

/-- Time can pass in two steps. -/
theorem elapseTo_elapseTo (session : Session σ) {target later : Nat} (h : target ≤ later) :
    (session.elapseTo scene target).elapseTo scene later = session.elapseTo scene later := by
  fun_induction elapseTo scene target session with
  | case1 session hwake =>
    have hnone : ∀ clock : Nat, nextWake? { session with clock } = none := fun _ => hwake
    rw [elapseTo_of_not_due (by simp [hnone]), elapseTo_of_not_due (by simp [hwake])]
    simp only [Nat.max_assoc, Nat.max_eq_right h]
  | case2 session wake hwake hdue ih =>
    rw [ih, elapseTo_of_due hwake ⟨hdue.1, Nat.le_trans hdue.2 h⟩]
  | case3 session wake hwake hdue =>
    have hsome : ∀ clock : Nat, nextWake? { session with clock } = some wake := fun _ => hwake
    by_cases hlater : session.clock < wake ∧ wake ≤ later
    · rw [elapseTo_of_due hwake hlater, elapseTo_of_due (hsome _) ⟨by simp only; omega, hlater.2⟩]
    · rw [elapseTo_of_not_due (by simp only [hsome, Option.some.injEq]; omega),
        elapseTo_of_not_due (by simp only [hwake, Option.some.injEq]; omega)]
      simp only [Nat.max_assoc, Nat.max_eq_right h]

/-- A session in which one run of a program is at a rest that is not over yet. -/
structure AtRest (program : Program) (pacing : Pacing) (done : List Effect)
    (execution : Execution) (state : σ) (time : Nat) (session : Session σ) : Prop where
  tasks : ∃ wake, session.tasks = [.resting program execution wake] ∧ time < wake
  clock : session.clock = time
  pacing : session.controller.pacing = pacing
  scene : session.controller.scene = state
  log : session.controller.log.snapshot = Effect.events done

section AtRest

variable {pacing : Pacing} {found state state' : σ} {done : List Effect}
  {execution execution' : Execution} {effects : Array Effect} {duration : Nat}

/-- A run that is requested comes to its first rest. -/
theorem atRest_request (hduration : 0 < duration)
    (hadvance : (Execution.start program).advance scene pacing #[] (scene.reset found)
      = (effects, state, .resting duration execution)) :
    ((opening pacing program found).request scene).AtRest program pacing
      (effects.toList ++ [.rest duration]) execution state 0 := by
  have hacquire : ((opening pacing program found).request scene)
      = { opening pacing program found with
          controller := (Controller.noted 0 (Controller.acquire scene 0
            { (opening pacing program found).controller with running := true })
              effects.toList state)
          tasks := [.resting program execution (0 + duration)] } := by
    simp only [Session.request, Controller.request, opening, Session.settle, List.nil_append,
      Controller.resumeAll, Controller.resume, Bool.false_eq_true, if_false,
      Option.isNone_none, if_true]
    rw [Controller.proceed_of_advance_resting 0 hadvance]
  rw [hacquire]
  refine ⟨⟨_, rfl, by omega⟩, rfl, rfl, rfl, ?_⟩
  show (EventLog.pushAll _ _).snapshot = _
  rw [EventLog.snapshot_pushAll]
  simp [Controller.acquire, opening]

theorem AtRest.nextWake?_eq {session : Session σ} {time : Nat}
    (h : session.AtRest program pacing done execution state time) :
    ∃ wake, session.nextWake? = some wake ∧ time < wake := by
  obtain ⟨wake, htasks, hwake⟩ := h.tasks
  exact ⟨wake, by simp [nextWake?, htasks, Task.wake?], hwake⟩

/-- A run that is alone stays at its rest when no time passes. -/
theorem AtRest.elapseTo {session : Session σ} {time : Nat}
    (h : session.AtRest program pacing done execution state time) :
    (session.elapseTo scene time).AtRest program pacing done execution state time := by
  obtain ⟨wake, hnext, hwake⟩ := h.nextWake?_eq
  rw [elapseTo_of_not_due (by simp only [hnext, Option.some.injEq]; omega)]
  exact ⟨h.tasks, by simp [h.clock], h.pacing, h.scene, h.log⟩

/-- A run that is alone comes to its next rest when time passes. -/
theorem AtRest.next {session : Session σ} {time : Nat}
    (h : session.AtRest program pacing done execution state time)
    (hduration : 0 < duration)
    (hadvance : execution.advance scene pacing #[] state
      = (effects, state', .resting duration execution')) :
    ∃ later, time ≤ later ∧ (session.elapseTo scene later).AtRest program pacing
      (done ++ (effects.toList ++ [.rest duration])) execution' state' later := by
  obtain ⟨⟨wake, htasks, hwake⟩, rfl, rfl, rfl, hlog⟩ := h
  have hnext : session.nextWake? = some wake := by simp [nextWake?, htasks, Task.wake?]
  refine ⟨wake, Nat.le_of_lt hwake, ?_⟩
  have hsettle : settle scene { session with clock := wake }
      = { session with
          controller := Controller.noted wake session.controller effects.toList state'
          clock := wake
          tasks := [.resting program execution' (wake + duration)] } := by
    simp only [Session.settle, htasks, Controller.resumeAll, Controller.resume, Nat.le_refl,
      if_true]
    rw [Controller.proceed_of_advance_resting wake hadvance]
  rw [elapseTo_of_due hnext ⟨hwake, Nat.le_refl _⟩, hsettle, elapseTo_of_not_due]
  · refine ⟨⟨_, rfl, by omega⟩, Nat.max_self _, rfl, rfl, ?_⟩
    show (EventLog.pushAll _ _).snapshot = _
    rw [EventLog.snapshot_pushAll, hlog]
    simp
  · simp [nextWake?, Task.wake?]

/-- **A run that is left alone comes to each of its rests** when time passes. -/
theorem exists_atRest
    (h : program.Reaches scene pacing (scene.reset found) done execution state)
    (hdone : done ≠ []) :
    ∃ time, (((opening pacing program found).request scene).elapseTo scene time).AtRest program
      pacing done execution state time := by
  induction h with
  | start => exact absurd rfl hdone
  | next h hadvance ih =>
    have hduration := (Execution.advance_resting scene pacing hadvance).1
    cases h with
    | start => exact ⟨0, (atRest_request hduration hadvance).elapseTo⟩
    | next h' hadvance' =>
      obtain ⟨time, hrest⟩ := ih (by simp)
      obtain ⟨later, hlater, hrest⟩ := hrest.next hduration hadvance
      rw [elapseTo_elapseTo _ hlater] at hrest
      exact ⟨later, hrest⟩

end AtRest

end Session

end BlockScript
