import BlockScript.Proofs.Controller.Standing

/-!
# A run that has the session for itself

A run that is requested while the scene is free and awaited at once goes from rest to rest, and the
clock follows it.  Nobody comes between, so the session is then what the whole performance makes of
it: the scene, the log, the uses of the scene with their times, and the time itself.

## What is here

* `Execution.isRest_advance` — from one rest to the next an execution does not rest, so all of it
  happens at one time (`Effect.calls_timeline_of_busy`).
* `Controller.finished` — a controller after a course that began at some time and ended its run.
* `Session.runOut_proceed` — **a run that goes on alone comes to its end**, by induction on what is
  left to do; `Session.Orderly.step_run_eq` is the same from the request on.
-/

set_option autoImplicit false
namespace BlockScript

variable {σ : Type} {scene : Scene σ}

/-! ## Effects in time -/

namespace Effect

theorem calls_timeline_cons (now : Nat) (effect : Effect) (effects : List Effect) :
    Timeline.calls (timeline now (effect :: effects))
      = (effect.call?.map (now, ·)).toList
        ++ Timeline.calls (timeline (now + effect.duration) effects) := by
  cases hcall : effect.call? <;> simp [timeline, Timeline.calls, hcall]

theorem calls_timeline_append (now : Nat) (effects more : List Effect) :
    Timeline.calls (timeline now (effects ++ more))
      = Timeline.calls (timeline now effects)
        ++ Timeline.calls (timeline (now + totalDuration effects) more) := by
  rw [timeline_append, Timeline.calls, List.filterMap_append]
  rfl

/-- What is done without a rest happens at one time. -/
theorem calls_timeline_of_busy {effects : List Effect}
    (h : ∀ effect ∈ effects, effect.isRest = false) (now : Nat) :
    Timeline.calls (timeline now effects) = (calls effects).map (now, ·)
      ∧ totalDuration effects = 0 := by
  induction effects with
  | nil => exact ⟨rfl, rfl⟩
  | cons effect effects ih =>
    obtain ⟨hcalls, hduration⟩ := ih fun other hmem => h other (by simp [hmem])
    rw [calls_timeline_cons]
    cases effect with
    | call use => simp [duration, call?, totalDuration, hcalls, hduration]
    | emit report => simp [duration, call?, totalDuration, hcalls, hduration]
    | rest duration => simpa using h (.rest duration) (by simp)

/-- Rests of no time take no time, and change no other time. -/
theorem timeline_lasting (now : Nat) (effects : List Effect) :
    Timeline.calls (timeline now (lasting effects)) = Timeline.calls (timeline now effects)
      ∧ totalDuration (lasting effects) = totalDuration effects := by
  induction effects generalizing now with
  | nil => exact ⟨rfl, rfl⟩
  | cons effect effects ih =>
    obtain ⟨hcalls, hduration⟩ := ih (now + effect.duration)
    rw [lasting] at hcalls hduration ⊢
    rw [calls_timeline_cons, totalDuration]
    cases hvoid : effect.isVoid with
    | true =>
      obtain rfl : effect = .rest 0 := by
        cases effect with
        | rest duration => cases duration <;> simp_all [isVoid]
        | call use => simp [isVoid] at hvoid
        | emit report => simp [isVoid] at hvoid
      rw [List.filter_cons_of_neg (by simp [hvoid])]
      exact ⟨hcalls, by rw [hduration]; simp [duration]⟩
    | false =>
      rw [List.filter_cons_of_pos (by simp [hvoid]), calls_timeline_cons, totalDuration, hcalls,
        hduration]
      exact ⟨rfl, rfl⟩

end Effect

theorem Timeline.map_snd_calls (now : Nat) (effects : List Effect) :
    (Timeline.calls (Effect.timeline now effects)).map Prod.snd = Effect.calls effects := by
  induction effects generalizing now with
  | nil => rfl
  | cons effect effects ih =>
    rw [Effect.calls_timeline_cons, List.map_append, ih]
    cases effect <;> simp [Effect.call?]

theorem Timeline.events_timeline (now : Nat) (effects : List Effect) :
    Timeline.events (Effect.timeline now effects) = Effect.events effects := by
  have hsnd := congrArg (List.filterMap Effect.event?) (Effect.map_snd_timeline now effects)
  rwa [List.filterMap_map] at hsnd

/-- From one rest to the next an execution does not rest. -/
theorem Execution.isRest_advance {pacing : Pacing} {effects effects' : Array Effect}
    {execution : Execution} {state state' : σ} {stop : Stop}
    (h : execution.advance scene pacing effects state = (effects', state', stop))
    (hbefore : ∀ effect ∈ effects.toList, effect.isRest = false) :
    ∀ effect ∈ effects'.toList, effect.isRest = false := by
  fun_induction advance scene pacing effects execution state with
  | case1 effects execution state queue hqueue ih => exact ih h hbefore
  | case2 effects execution state duration queue hqueue =>
    obtain ⟨rfl, -, -⟩ := h
    exact hbefore
  | case3 effects execution state effect queue hrest hrest' hqueue ih =>
    refine ih h ?_
    intro other hmem
    rw [Array.toList_push] at hmem
    rcases List.mem_append.1 hmem with hmem | hmem
    · exact hbefore other hmem
    · obtain rfl := List.mem_singleton.1 hmem
      cases other with
      | call use => rfl
      | emit report => rfl
      | rest duration =>
        cases duration with
        | zero => exact (hrest rfl).elim
        | succ duration => exact (hrest' duration rfl).elim
  | case4 effects execution state hqueue queue walk state'' hturn ih => exact ih h hbefore
  | case5 effects execution state hqueue hturn =>
    obtain ⟨rfl, -, -⟩ := h
    intro other hmem
    rw [Array.toList_appendList] at hmem
    rcases List.mem_append.1 hmem with hmem | hmem
    · exact hbefore other hmem
    · rw [closing] at hmem
      split at hmem
      · simp at hmem
      · obtain rfl := List.mem_singleton.1 hmem
        rfl

theorem EventLog.pushAll_append (log : EventLog) (events more : List Event) :
    log.pushAll (events ++ more) = (log.pushAll events).pushAll more := List.foldl_append

/-! ## Controllers -/

namespace Controller

/-- A controller after a run has ended with a course that began at some time. -/
def finished (now : Nat) (controller : Controller σ) (program : Program) (execution : Execution)
    (course : Course σ) : Controller σ :=
  { controller with
    scene := course.state
    holder := none
    running := false
    log := controller.log.pushAll (Effect.events course.effects)
    lastResult := some (controller.concluded program execution course)
    calls := controller.calls ++ Timeline.calls (Effect.timeline now course.effects) }

variable {controller : Controller σ} (program : Program) {execution : Execution} {state : σ}

/-- A run that does not come to rest any more ends at the time at which it goes on. -/
theorem proceed_of_advance_finished (now : Nat) {effects : Array Effect} {outcome : Outcome}
    (h : execution.advance scene controller.pacing #[] controller.scene
      = (effects, state, .finished outcome)) :
    let course := (execution.meaning scene controller.pacing controller.scene).lasting
    controller.proceed scene now program execution
        = (controller.finished now program execution course,
          .answered (some (controller.concluded program execution course)))
      ∧ Effect.totalDuration course.effects = 0 := by
  obtain ⟨done, hdone, hmeaning⟩ := Execution.meaning_advance scene controller.pacing h
  obtain rfl : effects.toList = done := by simp [hdone]
  have hbusy := Execution.isRest_advance h (by simp)
  obtain ⟨hcalls, hduration⟩ := Effect.calls_timeline_of_busy hbusy now
  have houtcome : Outcome.ofSuccess (decide (outcome = .succeeded)) = outcome := by
    cases outcome <;> rfl
  simp only [hmeaning, Stop.meaning, Course.after, List.append_nil]
  refine ⟨?_, hduration⟩
  simp only [proceed, h, foldl_note_array, finished, concluded, noted, EventLog.snapshot_pushAll,
    houtcome, hcalls]

/-- What comes after a rest concludes a run with all that was done before the rest. -/
theorem concluded_noted (now : Nat) (effects : List Effect) (duration : Nat)
    {execution' : Execution} (hentries : execution'.entryPoints = execution.entryPoints)
    (course : Course σ) :
    (controller.noted now effects state).concluded program execution' course
      = controller.concluded program execution (course.after (effects ++ [.rest duration])) := by
  simp [concluded, noted, Course.after, hentries]

/-- So it is with all that a run leaves behind, as the clock has gone on by the rest. -/
theorem finished_noted (now : Nat) {effects : List Effect}
    (hbusy : ∀ effect ∈ effects, effect.isRest = false) (duration : Nat) {execution' : Execution}
    (hentries : execution'.entryPoints = execution.entryPoints) (course : Course σ) :
    (controller.noted now effects state).finished (now + duration) program execution' course
      = controller.finished now program execution (course.after (effects ++ [.rest duration])) := by
  obtain ⟨hcalls, hduration⟩ := Effect.calls_timeline_of_busy hbusy now
  have hwhole : Timeline.calls (Effect.timeline now
        (course.after (effects ++ [.rest duration])).effects)
      = (Effect.calls effects).map (now, ·)
        ++ Timeline.calls (Effect.timeline (now + duration) course.effects) := by
    rw [Course.after, List.append_assoc, Effect.calls_timeline_append, hcalls, hduration,
      List.singleton_append, Effect.calls_timeline_cons]
    rfl
  have hevents : Effect.events (course.after (effects ++ [.rest duration])).effects
      = Effect.events effects ++ Effect.events course.effects := by
    simp [Course.after]
  have happend : controller.calls ++ (Effect.calls effects).map (now, ·)
        ++ Timeline.calls (Effect.timeline (now + duration) course.effects)
      = controller.calls ++ ((Effect.calls effects).map (now, ·)
        ++ Timeline.calls (Effect.timeline (now + duration) course.effects)) := Array.ext' (by simp)
  rw [finished, finished, concluded_noted program now effects duration hentries, hwhole, hevents,
    EventLog.pushAll_append, ← happend]
  rfl

end Controller

/-! ## Sessions -/

namespace Session

/-- Time does not pass when no run rests. -/
theorem runOut_of_nextWake?_eq_none {session : Session σ} (h : session.nextWake? = none) :
    session.runOut scene = session := by
  rw [runOut]
  split
  · rfl
  · next heq => simp [h] at heq

/-- Time passes up to the end of the next rest, and the runs go on. -/
theorem runOut_of_nextWake?_eq_some {session : Session σ} {wake : Nat}
    (h : session.nextWake? = some wake) :
    session.runOut scene
      = runOut scene (settle scene { session with clock := max session.clock wake }) := by
  rw [runOut]
  split
  · next heq => simp [h] at heq
  · next heq =>
    obtain rfl := Option.some.inj (h.symm.trans heq)
    rfl

/-- **A run that goes on alone comes to its end**, with all that it does to its end, and the clock
goes on by all its rests. -/
theorem runOut_proceed (session : Session σ) {earlier : List Task}
    (hover : ∀ other ∈ earlier, other.inFlight = false) (controller : Controller σ) (now : Nat)
    (program : Program) (execution : Execution) :
    let course := (execution.meaning scene controller.pacing controller.scene).lasting
    runOut scene { session with
        controller := (controller.proceed scene now program execution).1
        clock := now
        tasks := earlier ++ [(controller.proceed scene now program execution).2] }
      = { session with
          controller := controller.finished now program execution course
          clock := now + Effect.totalDuration course.effects
          tasks := earlier
            ++ [.answered (some (controller.concluded program execution course))] } := by
  have hwakes : earlier.filterMap Task.wake? = [] := by
    refine List.filterMap_eq_nil_iff.2 fun other hmem => ?_
    cases other with
    | resting own execution wake => simpa [Task.inFlight] using hover _ hmem
    | waiting own | answered result | cancelled => rfl
  obtain ⟨⟨effects, state, stop⟩, hadvance⟩ :
      ∃ r, execution.advance scene controller.pacing #[] controller.scene = r := ⟨_, rfl⟩
  cases stop with
  | finished outcome =>
    obtain ⟨hproceed, hduration⟩ :=
      Controller.proceed_of_advance_finished program now hadvance
    simp only [hproceed, hduration, Nat.add_zero]
    refine runOut_of_nextWake?_eq_none ?_
    rw [nextWake?, List.filterMap_append, hwakes]
    rfl
  | resting duration execution' =>
    obtain ⟨done, hdone, hmeaning⟩ :=
      Execution.meaning_advance scene controller.pacing hadvance
    obtain rfl : effects.toList = done := by simp [hdone]
    have hbusy := Execution.isRest_advance hadvance (by simp)
    obtain ⟨-, hentries⟩ := Execution.advance_resting scene controller.pacing hadvance
    have hless := Execution.work_advance hadvance
    have hproceed : controller.proceed scene now program execution
        = (controller.noted now effects.toList state,
          .resting program execution' (now + duration)) :=
      Controller.proceed_of_advance_resting now hadvance
    have hwake : nextWake? { session with
        controller := controller.noted now effects.toList state
        clock := now
        tasks := earlier ++ [.resting program execution' (now + duration)] }
          = some (now + duration) := by
      rw [nextWake?, List.filterMap_append, hwakes]
      rfl
    have hclock : max now (now + duration) = now + duration :=
      Nat.max_eq_right (Nat.le_add_right now duration)
    have hcourse : (execution.meaning scene controller.pacing controller.scene).lasting
        = (execution'.meaning scene controller.pacing state).lasting.after
            (effects.toList ++ [.rest duration]) := by
      rw [hmeaning, Stop.meaning, Course.after_after]
    have htime : now + Effect.totalDuration
          (execution.meaning scene controller.pacing controller.scene).lasting.effects
        = now + duration + Effect.totalDuration
          (execution'.meaning scene controller.pacing state).lasting.effects := by
      rw [hcourse, Course.after, List.append_assoc, Effect.totalDuration_append,
        (Effect.calls_timeline_of_busy hbusy now).2, Nat.zero_add, Nat.add_assoc]
      rfl
    -- The clock goes on to the end of this rest, and what is left is done alone as well.
    have hrest := runOut_proceed session hover (controller.noted now effects.toList state)
      (now + duration) program execution'
    rw [hproceed, runOut_of_nextWake?_eq_some hwake]
    simp only [settle, hclock, resumeAll_append_singleton _ _ hover, Controller.resume,
      Nat.le_refl, if_true]
    rw [htime, hcourse, ← Controller.finished_noted program now hbusy duration hentries,
      ← Controller.concluded_noted program now effects.toList duration hentries]
    exact hrest
termination_by execution.work

section

variable {session : Session σ}

theorem Orderly.not_inFlight (h : session.Orderly) (hrunning : session.controller.running = false)
    {task : Task} (hmem : task ∈ session.tasks) : task.inFlight = false := by
  cases hflight : task.inFlight with
  | false => rfl
  | true =>
    rw [h.running_of_inFlight hmem hflight] at hrunning
    exact absurd hrunning (by decide)

/-- While no run is in flight, a run that is requested gets the scene at once if it is free. -/
theorem request_of_free (hover : ∀ other ∈ session.tasks, other.inFlight = false)
    (hrunning : session.controller.running = false) (hholder : session.controller.holder = none) :
    let admitted := { session.controller with running := true }
    let next := (admitted.acquire scene session.clock).proceed scene session.clock
      session.controller.program (.start session.controller.program)
    session.request scene
      = { session with controller := next.1, tasks := session.tasks ++ [next.2] } := by
  simp only [Session.request, Controller.request, hrunning, Bool.false_eq_true, if_false, settle,
    resumeAll_append_singleton _ _ hover, Controller.resume, hholder, Option.isNone_none, if_true]

/-- **A run that is requested while the scene is free and awaited at once** does to the session what
its program does to a scene that has been reset, and nothing else. -/
theorem Orderly.step_run_eq (h : session.Orderly) (scene : Scene σ)
    (hrunning : session.controller.running = false) (hholder : session.controller.holder = none) :
    let controller := session.controller
    let start := scene.reset controller.scene
    let course := controller.program.performance scene controller.pacing start
    let result := controller.program.result scene controller.pacing start
    session.step scene .run
      = .ok ({ session with
          clock := session.clock + Effect.totalDuration course.effects
          controller := { controller with
            scene := course.state
            log := controller.log.clear.pushAll result.events
            lastResult := some result
            calls := controller.calls ++ (session.clock, .reset)
              :: Timeline.calls (Effect.timeline session.clock course.effects) } },
        .result (some result)) := by
  intro controller start course result
  have htaken : session.taken = false := by simp [taken, hholder]
  have hover : ∀ other ∈ session.tasks, other.inFlight = false := fun _ => h.not_inFlight hrunning
  obtain ⟨acquired, hacquired⟩ :
      ∃ acquired, Controller.acquire scene session.clock { controller with running := true }
        = acquired := ⟨_, rfl⟩
  have hcourse : ((Execution.start controller.program).meaning scene acquired.pacing
      acquired.scene).lasting = course.lasting := by rw [← hacquired]; rfl
  obtain ⟨hcalls, hduration⟩ := Effect.timeline_lasting session.clock course.effects
  have hlasting : Effect.events course.lasting.effects = result.events :=
    Effect.events_lasting course.effects
  have hconcluded : acquired.concluded controller.program (.start controller.program)
      course.lasting = result := by
    rw [← hacquired, Controller.concluded, hlasting]
    rfl
  have hfinished : acquired.finished session.clock controller.program (.start controller.program)
        course.lasting
      = { controller with
          scene := course.state
          log := controller.log.clear.pushAll result.events
          lastResult := some result
          calls := controller.calls ++ (session.clock, .reset)
            :: Timeline.calls (Effect.timeline session.clock course.effects) } := by
    have hpush : acquired.calls ++ Timeline.calls (Effect.timeline session.clock course.effects)
        = controller.calls ++ (session.clock, .reset)
          :: Timeline.calls (Effect.timeline session.clock course.effects) := by
      rw [← hacquired]
      exact Array.ext' (by simp [Controller.acquire])
    rw [Controller.finished, hconcluded, hlasting, Course.lasting, hcalls, hpush, ← hacquired]
    simp only [Controller.acquire, ← hrunning, ← hholder]
    rfl
  have hrunOut : (session.request scene).runOut scene
      = { session with
          controller := acquired.finished session.clock controller.program
            (.start controller.program) course.lasting
          clock := session.clock + Effect.totalDuration course.lasting.effects
          tasks := session.tasks ++ [.answered (some (acquired.concluded controller.program
            (.start controller.program) course.lasting))] } := by
    rw [request_of_free hover hrunning hholder, ← hcourse, ← hacquired]
    exact runOut_proceed session hover _ session.clock controller.program _
  rw [step, runNow_of_free hrunning htaken, hrunOut, hfinished, hconcluded, Course.lasting,
    hduration, List.getLast?_concat, List.dropLast_concat]
  rfl

end

end Session

end BlockScript
