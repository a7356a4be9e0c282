import BlockScript.Proofs.Controller.History
import BlockScript.Proofs.Controller.Resume

/-!
# One run at a time

Whether a run is in flight is said in three places: by the runs themselves, by the flag of the
controller, and by whoever has the scene.  They are set and cleared at different moments, and this
file proves that they always agree.

## What is here

* `Session.Orderly` — the invariant: as many runs are in flight as the flag says, and as many of
  them have the scene as its holder says.
* `Session.Orderly.changeRun` — a change of one run keeps it if run, flag and holder change
  together; `Controller.InStep` says that they do, and `Controller.resume_inStep` and
  `Controller.abort_inStep` that going on and being aborted are such changes.
* `Session.orderly_after` — so the invariant holds after every history.
* `Session.Exclusive` — at most one run is in flight, nobody else gets the scene from it, and a
  request in the meantime is rejected and changes nothing; `Session.Orderly.exclusive` says that
  order is enough for this.
-/

set_option autoImplicit false
namespace BlockScript

variable {σ : Type}

/-- Whether a run has the scene. -/
def Task.holdsScene : Task → Bool
  | .resting .. => true
  | _ => false

theorem Task.inFlight_of_holdsScene {task : Task} (h : task.holdsScene = true) :
    task.inFlight = true := by
  cases task with
  | resting program execution wake => rfl
  | waiting program => simp [holdsScene] at h
  | answered result => simp [holdsScene] at h
  | cancelled => simp [holdsScene] at h

/-- Whether the scene is held by a run. -/
def Controller.heldByRun (controller : Controller σ) : Bool := controller.holder = some .run

theorem Controller.heldByRun_iff {controller : Controller σ} :
    controller.heldByRun = true ↔ controller.holder = some .run := by
  simp [heldByRun]

/-! ## The invariant -/

/-- The flag and the holder of the scene agree with the runs. -/
structure Session.Orderly (session : Session σ) : Prop where
  /-- The flag counts the runs in flight. -/
  running : session.tasks.countP Task.inFlight = session.controller.running.toNat
  /-- The holder of the scene counts the runs that have it. -/
  holding : session.tasks.countP Task.holdsScene = session.controller.heldByRun.toNat

/-- A run changes together with the flag and the holder. -/
structure Controller.InStep (controller : Controller σ) (task : Task)
    (next : Controller σ × Task) : Prop where
  running : controller.running.toNat + next.2.inFlight.toNat
    = next.1.running.toNat + task.inFlight.toNat
  holding : controller.heldByRun.toNat + next.2.holdsScene.toNat
    = next.1.heldByRun.toNat + task.holdsScene.toNat

theorem Controller.InStep.refl (controller : Controller σ) (task : Task) :
    controller.InStep task (controller, task) := ⟨rfl, rfl⟩

/-- A run that holds the scene and goes on stays in step with the flag and the holder. -/
theorem Controller.proceed_inStep (scene : Scene σ) (now : Nat) {controller : Controller σ}
    (program : Program) (execution : Execution) {task : Task} {before : Controller σ}
    (hrunning : controller.running = true) (hheld : controller.heldByRun = true)
    (hflight : task.inFlight = true) (hbefore : before.running = true)
    (hscene : before.heldByRun = task.holdsScene) :
    before.InStep task (controller.proceed scene now program execution) := by
  obtain ⟨done, duration, execution', state, -, -, -, h⟩ | ⟨course, result, -, -, h⟩ :=
    controller.proceed_cases scene now program execution
  · rw [h]
    refine ⟨?_, ?_⟩
    · show before.running.toNat + 1 = controller.running.toNat + task.inFlight.toNat
      rw [hbefore, hrunning, hflight]
      rfl
    · show before.heldByRun.toNat + 1 = controller.heldByRun.toNat + task.holdsScene.toNat
      rw [hscene, hheld, Nat.add_comm]
      rfl
  · rw [h]
    refine ⟨?_, ?_⟩
    · show before.running.toNat + 0 = 0 + task.inFlight.toNat
      rw [hbefore, hflight]
      rfl
    · show before.heldByRun.toNat + 0 = 0 + task.holdsScene.toNat
      rw [hscene, Nat.add_comm]

/-- **A run that goes on stays in step**, provided that it was. -/
theorem Controller.resume_inStep (scene : Scene σ) (now : Nat) {controller : Controller σ}
    {task : Task} (hrunning : task.inFlight = true → controller.running = true)
    (hheld : task.holdsScene = true → controller.heldByRun = true) :
    controller.InStep task (controller.resume scene now task) := by
  obtain ⟨h, -⟩ | ⟨program, rfl, hholder, h⟩ | ⟨program, execution, wake, rfl, h⟩ :=
    controller.resume_cases scene now task
  · rw [h]
    exact .refl controller task
  · rw [h]
    exact proceed_inStep scene now program _ (hrunning rfl) rfl rfl (hrunning rfl)
      (by simp [heldByRun, hholder, Task.holdsScene])
  · rw [h]
    exact proceed_inStep scene now program execution (hrunning rfl) (hheld rfl) rfl (hrunning rfl)
      (hheld rfl)

/-- **A run that is aborted stays in step**, provided that it was. -/
theorem Controller.abort_inStep {controller : Controller σ} {task : Task}
    (hrunning : task.inFlight = true → controller.running = true)
    (hheld : task.holdsScene = true → controller.heldByRun = true) :
    controller.InStep task (controller.abort task) := by
  cases task with
  | waiting program =>
    refine ⟨?_, rfl⟩
    show controller.running.toNat + 0 = 0 + 1
    rw [hrunning rfl]
    rfl
  | resting program execution wake =>
    refine ⟨?_, ?_⟩
    · show controller.running.toNat + 0 = 0 + 1
      rw [hrunning rfl]
      rfl
    · show controller.heldByRun.toNat + 0 = 0 + 1
      rw [hheld rfl]
      rfl
  | answered result => exact .refl controller _
  | cancelled => exact .refl controller _

/-- Replacing an element of a list changes a count by that element. -/
theorem Task.countP_set {p : Task → Bool} {tasks : List Task} {run : Nat} {task : Task}
    (h : tasks[run]? = some task) (task' : Task) :
    (tasks.set run task').countP p + (p task).toNat = tasks.countP p + (p task').toNat := by
  obtain ⟨hlt, rfl⟩ := List.getElem?_eq_some_iff.1 h
  have htoNat : ∀ b : Bool, (if b = true then 1 else 0) = b.toNat := by decide
  rw [List.countP_set hlt, htoNat, htoNat]
  cases hold : p tasks[run] with
  | false =>
    rw [Bool.toNat_false]
    omega
  | true =>
    have hpos : 0 < tasks.countP p :=
      List.countP_pos_iff.2 ⟨tasks[run], List.getElem_mem hlt, hold⟩
    rw [Bool.toNat_true]
    omega

namespace Session

namespace Orderly

variable {session : Session σ}

theorem running_of_inFlight (h : session.Orderly) {task : Task} (hmem : task ∈ session.tasks)
    (hflight : task.inFlight = true) : session.controller.running = true := by
  have hpos : 0 < session.tasks.countP Task.inFlight := List.countP_pos_iff.2 ⟨task, hmem, hflight⟩
  rw [h.running] at hpos
  simpa using Nat.ne_of_gt hpos

theorem heldByRun_of_holdsScene (h : session.Orderly) {task : Task} (hmem : task ∈ session.tasks)
    (hholds : task.holdsScene = true) : session.controller.heldByRun = true := by
  have hpos : 0 < session.tasks.countP Task.holdsScene :=
    List.countP_pos_iff.2 ⟨task, hmem, hholds⟩
  rw [h.holding] at hpos
  simpa using Nat.ne_of_gt hpos

/-- A change of one run keeps order if the run stays in step. -/
theorem changeRun (h : session.Orderly) (run : Nat)
    {change : Controller σ → Task → Controller σ × Task}
    (hchange : ∀ task, (task.inFlight = true → session.controller.running = true) →
      (task.holdsScene = true → session.controller.heldByRun = true) →
      session.controller.InStep task (change session.controller task)) :
    (session.changeRun run change).Orderly := by
  cases htask : session.tasks[run]? with
  | none => rwa [changeRun_of_eq_none htask]
  | some task =>
    have hmem : task ∈ session.tasks := List.mem_of_getElem? htask
    have hstep := hchange task (h.running_of_inFlight hmem) (h.heldByRun_of_holdsScene hmem)
    have hflight := Task.countP_set (p := Task.inFlight) htask
      (change session.controller task).2
    have hholds := Task.countP_set (p := Task.holdsScene) htask
      (change session.controller task).2
    rw [changeRun_of_eq_some htask]
    have := h.running
    have := h.holding
    have := hstep.running
    have := hstep.holding
    exact ⟨by simp only; omega, by simp only; omega⟩

/-- A request keeps order: it is admitted only if no run is in flight. -/
theorem request (h : session.Orderly) (scene : Scene σ) :
    (session.happen scene .request).Orderly := by
  cases hrunning : session.controller.running with
  | true =>
    constructor
    · simpa [happen, Controller.request, hrunning, Task.inFlight] using h.running
    · simpa [happen, Controller.request, hrunning, Task.holdsScene] using h.holding
  | false =>
    constructor
    · simp [happen, Controller.request, hrunning, Task.inFlight, h.running]
    · simpa [happen, Controller.request, hrunning, Task.holdsScene, Controller.heldByRun]
        using h.holding

/-- **Everything that can happen keeps order.** -/
theorem happen (h : session.Orderly) (scene : Scene σ) (happening : Happening σ) :
    (session.happen scene happening).Orderly := by
  cases happening with
  | request => exact h.request scene
  | resume run =>
    exact h.changeRun run fun task => Controller.resume_inStep scene session.clock
  | abort run => exact h.changeRun run fun task => Controller.abort_inStep
  | elapse duration => exact ⟨h.running, h.holding⟩
  | setProgram program => exact ⟨h.running, h.holding⟩
  | take =>
    by_cases hfree : session.controller.holder.isNone
    · rw [Session.happen, if_pos hfree]
      refine ⟨h.running, h.holding.trans ?_⟩
      rw [Option.isNone_iff_eq_none] at hfree
      simp [modify, Controller.heldByRun, hfree]
    · rwa [Session.happen, if_neg hfree]
  | giveBack =>
    by_cases htaken : session.taken
    · rw [Session.happen, if_pos htaken]
      refine ⟨h.running, h.holding.trans ?_⟩
      rw [taken, decide_eq_true_eq] at htaken
      simp [modify, Controller.heldByRun, htaken]
    · rwa [Session.happen, if_neg htaken]
  | change change =>
    by_cases hheld : session.controller.holder = some .run
    · rwa [Session.happen, if_pos hheld]
    · rw [Session.happen, if_neg hheld]
      exact ⟨h.running, h.holding⟩
  | subscribe => exact ⟨h.running, h.holding⟩
  | drain receiver =>
    cases hreader : session.receivers[receiver]? with
    | none => simpa only [Session.happen, hreader] using h
    | some reader =>
      simp only [Session.happen, hreader]
      exact ⟨h.running, h.holding⟩

end Orderly

theorem orderly_opening (pacing : Pacing) (program : Program) (state : σ) :
    (opening pacing program state).Orderly := ⟨rfl, rfl⟩

/-- **Order after every history.** -/
theorem orderly_after (scene : Scene σ) (pacing : Pacing) (program : Program) (state : σ)
    (history : List (Happening σ)) :
    ((opening pacing program state).after scene history).Orderly :=
  after_induction scene (orderly_opening pacing program state)
    (fun _ happening h => h.happen scene happening) history

/-! ## What order means -/

section Meaning

variable {session : Session σ}

/-- The flag is set exactly while a run is in flight. -/
theorem Orderly.running_iff (h : session.Orderly) :
    session.controller.running = true ↔ ∃ task ∈ session.tasks, task.inFlight = true := by
  constructor
  · intro hrunning
    have hcount := h.running
    rw [hrunning] at hcount
    exact List.countP_pos_iff.1 (by rw [hcount]; decide)
  · rintro ⟨task, hmem, hflight⟩
    exact h.running_of_inFlight hmem hflight

/-- What a run can rely on in a session. -/
structure Exclusive (scene : Scene σ) (session : Session σ) : Prop where
  /-- At most one run is in flight. -/
  atMostOne : session.tasks.countP Task.inFlight ≤ 1
  /-- The flag says whether one is. -/
  running_iff : session.controller.running = true ↔ ∃ task ∈ session.tasks, task.inFlight = true
  /-- While a run has the scene nobody else gets it: it cannot be looked at, taken or changed, and
  no other run goes on. -/
  scene_kept : ∀ task ∈ session.tasks, task.holdsScene = true →
    session.step scene .tryScene = .ok (session, .nothing)
      ∧ session.happen scene .take = session
      ∧ (∀ change, session.happen scene (.change change) = session)
      ∧ ∀ (run : Nat) (other : Task), session.tasks[run]? = some other →
          other.holdsScene = false → session.happen scene (.resume run) = session
  /-- While a run is in flight a request is rejected and changes nothing: neither the controller
  nor the receivers nor any run. -/
  rejected : ∀ task ∈ session.tasks, task.inFlight = true →
    session.step scene .run = .ok (session, .result none)
      ∧ session.happen scene .request
        = { session with tasks := session.tasks ++ [.answered none] }

/-- Nobody gets the scene while a run has it. -/
theorem Orderly.scene_of_holdsScene (h : session.Orderly) (scene : Scene σ) {task : Task}
    (hmem : task ∈ session.tasks) (hholds : task.holdsScene = true) :
    session.step scene .tryScene = .ok (session, .nothing)
      ∧ session.happen scene .take = session
      ∧ (∀ change, session.happen scene (.change change) = session)
      ∧ ∀ (run : Nat) (other : Task), session.tasks[run]? = some other →
          other.holdsScene = false → session.happen scene (.resume run) = session := by
  have hholder : session.controller.holder = some .run :=
    Controller.heldByRun_iff.1 (h.heldByRun_of_holdsScene hmem hholds)
  refine ⟨?_, ?_, fun change => ?_, fun run other hother hfree => ?_⟩
  · simp [step, hholder]
  · simp [Session.happen, hholder]
  · simp [Session.happen, hholder]
  · -- The other run either waits, and then for this one, or has nothing left to do.
    refine changeRun_eq_self hother ?_
    cases other with
    | waiting program => simp [Controller.resume, hholder]
    | resting program execution wake => simp [Task.holdsScene] at hfree
    | answered result => rfl
    | cancelled => rfl

/-- A request while a run is in flight is rejected and changes nothing. -/
theorem Orderly.request_of_inFlight (h : session.Orderly) (scene : Scene σ) {task : Task}
    (hmem : task ∈ session.tasks) (hflight : task.inFlight = true) :
    session.step scene .run = .ok (session, .result none)
      ∧ session.happen scene .request
        = { session with tasks := session.tasks ++ [.answered none] } := by
  have hrunning := h.running_of_inFlight hmem hflight
  exact ⟨by simp [step, runNow, hrunning], by simp [Session.happen, Controller.request, hrunning]⟩

/-- Order is enough for runs to exclude each other. -/
theorem Orderly.exclusive (h : session.Orderly) (scene : Scene σ) : session.Exclusive scene where
  atMostOne := by
    rw [h.running]
    exact Bool.toNat_le session.controller.running
  running_iff := h.running_iff
  scene_kept task hmem hholds := h.scene_of_holdsScene scene hmem hholds
  rejected task hmem hflight := h.request_of_inFlight scene hmem hflight

end Meaning

end Session
end BlockScript
