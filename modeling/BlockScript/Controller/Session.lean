import BlockScript.Controller

/-!
# Sessions

A session is a controller in use: time passes, runs are requested, awaited and aborted, somebody
looks at the scene or keeps it for a while, and receivers follow the events. The clock stands still
while anything happens and moves on only when somebody waits.

## What is here

* `Session` — a controller with its clock, the runs that were requested and the receivers.
* `Session.settle` — every run goes on as far as it can at the present time.
* `Session.elapseTo` and `Session.runOut` — time passes up to a given time, or until no run rests.
* `Session.Op` and `Session.step` — what can be done, and what it answers.
-/

set_option autoImplicit false
namespace BlockScript

/-- A controller in use. -/
structure Session (σ : Type) where
  controller : Controller σ
  /-- The present time in milliseconds. -/
  clock : Nat := 0
  /-- The requested runs that have not been awaited, the oldest first. -/
  tasks : List Task := []
  receivers : Array Receiver := #[]

/-- What is left to do for some runs. -/
def Task.workAll : List Task → Nat
  | [] => 0
  | task :: tasks => task.work + Task.workAll tasks

/-- Lets runs go on, the oldest first, as far as they can at the present time. -/
def Controller.resumeAll {σ : Type} (scene : Scene σ) (now : Nat) (controller : Controller σ) :
    List Task → Controller σ × List Task
  | [] => (controller, [])
  | task :: tasks =>
    let (controller, task) := controller.resume scene now task
    let (controller, tasks) := controller.resumeAll scene now tasks
    (controller, task :: tasks)

theorem Controller.work_resumeAll_le {σ : Type} (scene : Scene σ) (now : Nat)
    (controller : Controller σ) (tasks : List Task) :
    Task.workAll (controller.resumeAll scene now tasks).2 ≤ Task.workAll tasks := by
  induction tasks generalizing controller with
  | nil => exact Nat.le_refl _
  | cons task tasks ih =>
    have hfirst := work_resume_le scene now controller task
    have hrest := ih (controller.resume scene now task).1
    simp only [Task.workAll, resumeAll] at *
    omega

theorem Controller.work_resumeAll_lt {σ : Type} (scene : Scene σ) (now : Nat)
    (controller : Controller σ) {tasks : List Task} {wake : Nat}
    (h : wake ∈ tasks.filterMap Task.wake?) (hnow : wake ≤ now) :
    Task.workAll (controller.resumeAll scene now tasks).2 < Task.workAll tasks := by
  induction tasks generalizing controller with
  | nil => simp at h
  | cons task tasks ih =>
    obtain ⟨due, hdue, hwake⟩ := List.mem_filterMap.1 h
    have hfirst := work_resume_le scene now controller task
    have hrest := work_resumeAll_le scene now (controller.resume scene now task).1 tasks
    rcases List.mem_cons.1 hdue with rfl | hdue
    · have := work_resume_lt scene now controller hwake hnow
      simp only [Task.workAll, resumeAll] at *
      omega
    · have := ih (controller.resume scene now task).1 (List.mem_filterMap.2 ⟨due, hdue, hwake⟩)
      simp only [Task.workAll, resumeAll] at *
      omega

namespace Session

variable {σ : Type}

/-! ## Time -/

/-- Lets every run go on as far as it can at the present time. -/
def settle (scene : Scene σ) (session : Session σ) : Session σ :=
  let (controller, tasks) := session.controller.resumeAll scene session.clock session.tasks
  { session with controller, tasks }

/-- The time at which the next rest ends. -/
def nextWake? (session : Session σ) : Option Nat := (session.tasks.filterMap Task.wake?).min?

/-- Lets time pass up to a given time. Rests that end at or before it are over. -/
def elapseTo (scene : Scene σ) (target : Nat) (session : Session σ) : Session σ :=
  match session.nextWake? with
  | none => { session with clock := max session.clock target }
  | some wake =>
    if _h : session.clock < wake ∧ wake ≤ target then
      elapseTo scene target (settle scene { session with clock := wake })
    else { session with clock := max session.clock target }
termination_by target - session.clock
decreasing_by simp only [settle]; omega

/-- Lets time pass until no run rests any more. -/
def runOut (scene : Scene σ) (session : Session σ) : Session σ :=
  match _h : session.nextWake? with
  | none => session
  | some wake => runOut scene (settle scene { session with clock := max session.clock wake })
termination_by Task.workAll session.tasks
decreasing_by
  exact Controller.work_resumeAll_lt scene _ _ (List.min?_mem _h) (Nat.le_max_right _ _)

/-! ## What can be done -/

/-- A change of the scene from outside. -/
inductive Poke where
  | reset
  | consume
  | move (direction : Direction)
  deriving DecidableEq

/-- The state of the scene after such a change. -/
def Poke.apply (scene : Scene σ) (state : σ) : Poke → σ
  | .reset => scene.reset state
  | .consume => scene.consume state
  | .move direction => scene.move state direction

/-- What can be done in a session. -/
inductive Op where
  /-- Requests a run and awaits it. -/
  | run
  /-- Requests a run and leaves it to itself. -/
  | start
  /-- Lets so many milliseconds pass. -/
  | wait (duration : Nat)
  /-- Awaits the oldest run that has not been awaited. -/
  | join
  /-- Aborts that run. -/
  | abort
  | setProgram (program : Program)
  | program
  | events
  | lastResult
  /-- Looks at the scene, once it is free. -/
  | scene
  /-- Looks at the scene, if it is free. -/
  | tryScene
  /-- Takes the scene, once it is free. -/
  | lock
  /-- Gives the scene back. -/
  | unlock
  /-- Changes the scene, once it is free. -/
  | poke (poke : Poke)
  | subscribe
  | drain (receiver : Nat)
  /-- Asks for the uses that runs have made of the scene since they were last asked for. -/
  | calls
  | pacing

/-- What an operation answers. -/
inductive Answer (σ : Type) where
  | nothing
  /-- The result of a run, or nothing if it was rejected. -/
  | result (result : Option RunResult)
  | cancelled
  | program (program : Program)
  | events (events : List Event)
  | state (state : σ)
  | number (n : Nat)
  | receipts (receipts : List Receipt)
  | calls (calls : List (Nat × Scene.Call))
  | pacing (pacing : Pacing)

/-- What cannot be done. -/
inductive Misuse where
  /-- The scene is awaited by the one who has it. -/
  | sceneTaken
  | nothingToJoin
  | noSuchReceiver
  deriving DecidableEq

/-- Whether the scene has been taken from outside. -/
def taken (session : Session σ) : Bool := session.controller.holder = some .visitor

/-- Waits until no run has the scene. -/
def awaitScene (scene : Scene σ) (session : Session σ) : Except Misuse (Session σ) :=
  if session.taken then .error .sceneTaken else .ok (session.runOut scene)

/-- Changes the controller of a session. -/
def modify (session : Session σ) (change : Controller σ → Controller σ) : Session σ :=
  { session with controller := change session.controller }

/-- What a run answers to the one who awaits it. -/
def answerOf : Task → Answer σ
  | .answered result => .result result
  | .cancelled => .cancelled
  | _ => .nothing

/-- Requests a run; it is put behind the runs that have not been awaited. -/
def request (scene : Scene σ) (session : Session σ) : Session σ :=
  let (controller, task) := session.controller.request
  settle scene { session with controller, tasks := session.tasks ++ [task] }

/-- Requests a run and awaits it. -/
def runNow (scene : Scene σ) (session : Session σ) : Except Misuse (Session σ × Answer σ) :=
  if session.controller.running then .ok (session, .result none)
  else do
    if session.taken then throw .sceneTaken
    let after := (session.request scene).runOut scene
    let answer := (after.tasks.getLast?.map answerOf).getD .nothing
    return ({ after with tasks := after.tasks.dropLast }, answer)

/-- Awaits the oldest run. -/
def join (scene : Scene σ) (session : Session σ) : Except Misuse (Session σ × Answer σ) :=
  if session.taken then .error .sceneTaken
  else
    match session.tasks with
    | [] => .error .nothingToJoin
    | task :: _ =>
      let after := if task.inFlight then session.runOut scene else session
      let answer := (after.tasks.head?.map answerOf).getD .nothing
      .ok ({ after with tasks := after.tasks.tail }, answer)

/-- Aborts the oldest run. -/
def abort (scene : Scene σ) (session : Session σ) : Session σ :=
  match session.tasks with
  | [] => session
  | task :: tasks =>
    let (controller, task) := session.controller.abort task
    settle scene { session with controller, tasks := task :: tasks }

/-- Does an operation. -/
def step (scene : Scene σ) (session : Session σ) : Op → Except Misuse (Session σ × Answer σ)
  | .run => session.runNow scene
  | .start => .ok (session.request scene, .nothing)
  | .wait duration => .ok (session.elapseTo scene (session.clock + duration), .nothing)
  | .join => session.join scene
  | .abort => .ok (session.abort scene, .nothing)
  | .setProgram program =>
    .ok (session.modify fun controller => { controller with program }, .nothing)
  | .program => .ok (session, .program session.controller.program)
  | .events => .ok (session, .events session.controller.log.snapshot)
  | .lastResult => .ok (session, .result session.controller.lastResult)
  | .scene => do
    let session ← session.awaitScene scene
    return (session, .state session.controller.scene)
  | .tryScene =>
    .ok (session,
      if session.controller.holder.isNone then .state session.controller.scene else .nothing)
  | .lock => do
    let session ← session.awaitScene scene
    return (session.modify fun controller => { controller with holder := some .visitor }, .nothing)
  | .unlock =>
    if session.taken then
      .ok ((session.modify fun controller => { controller with holder := none }).settle scene,
        .nothing)
    else .ok (session, .nothing)
  | .poke poke => do
    let session ← session.awaitScene scene
    let session := session.modify fun controller =>
      { controller with scene := poke.apply scene controller.scene }
    return (session, .state session.controller.scene)
  | .subscribe =>
    .ok ({ session with
        receivers := session.receivers.push session.controller.log.live.subscribe },
      .number session.receivers.size)
  | .drain receiver =>
    match session.receivers[receiver]? with
    | none => .error .noSuchReceiver
    | some reader =>
      let (receipts, reader) := session.controller.log.live.drain reader
      .ok ({ session with receivers := session.receivers.setIfInBounds receiver reader },
        .receipts receipts)
  | .calls =>
    .ok (session.modify fun controller => { controller with calls := #[] },
      .calls session.controller.calls.toList)
  | .pacing => .ok (session, .pacing session.controller.pacing)

end Session
end BlockScript
