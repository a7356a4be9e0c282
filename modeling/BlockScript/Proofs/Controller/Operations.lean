import BlockScript.Proofs.Controller.Exclusion
import BlockScript.Proofs.Results

/-!
# Operations are histories

An operation of a session is made of single happenings: it requests or aborts a run, lets time pass
from one end of a rest to the next, and lets every run go on as far as it can in between.  This file
takes operations apart, so that what holds after every history holds in every session.

## What is here

* `Session.LeadsTo` — a history leads from one session to another.  That is so where runs go on by
  themselves: `Session.leadsTo_settle`, `Session.leadsTo_elapseTo` and `Session.leadsTo_runOut`.
* `Session.Settled` — no run waits for a scene that is free.  `Session.Steady` sessions are settled
  and in order; once their runs have run out, none is in flight.
* `Session.Steady.step` — every operation amounts to a history, after which it may drop what it has
  answered, and keeps a session steady; `Session.steady_performAll` is the same for lists.
* `Session.one_run_at_a_time` — runs exclude each other after every history and in every session.
-/

set_option autoImplicit false
namespace BlockScript

variable {σ : Type}

/-! ## Runs that go on by themselves -/

/-- Runs that are not in flight do not go on. -/
theorem Controller.resume_of_not_inFlight (scene : Scene σ) (now : Nat)
    (controller : Controller σ) {task : Task} (h : task.inFlight = false) :
    controller.resume scene now task = (controller, task) := by
  cases task with
  | waiting program => simp [Task.inFlight] at h
  | resting program execution wake => simp [Task.inFlight] at h
  | answered result => rfl
  | cancelled => rfl

theorem Controller.resumeAll_cons (scene : Scene σ) (now : Nat) (controller : Controller σ)
    (task : Task) (tasks : List Task) :
    controller.resumeAll scene now (task :: tasks)
      = (((controller.resume scene now task).1.resumeAll scene now tasks).1,
        (controller.resume scene now task).2
          :: ((controller.resume scene now task).1.resumeAll scene now tasks).2) := rfl

theorem Controller.resumeAll_of_not_inFlight (scene : Scene σ) (now : Nat)
    (controller : Controller σ) {tasks : List Task} (h : ∀ task ∈ tasks, task.inFlight = false) :
    controller.resumeAll scene now tasks = (controller, tasks) := by
  induction tasks with
  | nil => rfl
  | cons task tasks ih =>
    rw [resumeAll_cons, resume_of_not_inFlight scene now controller (h task (by simp)),
      ih fun other hmem => h other (by simp [hmem])]

/-- A run that holds the scene does not wait for it any more. -/
theorem Controller.waiting_ne_proceed (scene : Scene σ) (now : Nat) (controller : Controller σ)
    (program : Program) (execution : Execution) (other : Program) :
    Task.waiting other ≠ (controller.proceed scene now program execution).2 := by
  obtain ⟨done, duration, execution', state, -, -, -, heq⟩ | ⟨course, result, -, -, heq⟩ :=
    controller.proceed_cases scene now program execution <;> simp [heq]

/-- A run that goes on does not take the scene for a visitor. -/
theorem Controller.holder_resume (scene : Scene σ) (now : Nat) {controller : Controller σ}
    {task : Task} (h : (controller.resume scene now task).1.holder = some .visitor) :
    controller.holder = some .visitor := by
  have hproceed : ∀ (controller : Controller σ) (program : Program) (execution : Execution),
      (controller.proceed scene now program execution).1.holder = some .visitor →
        controller.holder = some .visitor := by
    intro controller program execution h
    obtain ⟨done, duration, execution', state, -, -, -, heq⟩ | ⟨course, result, -, -, heq⟩ :=
      controller.proceed_cases scene now program execution
    · rw [heq] at h
      exact h
    · rw [heq] at h
      simp at h
  obtain ⟨heq, -⟩ | ⟨program, rfl, -, heq⟩ | ⟨program, execution, wake, rfl, heq⟩ :=
    controller.resume_cases scene now task
  · rwa [heq] at h
  · rw [heq] at h
    exact absurd (hproceed _ _ _ h) (by simp [acquire])
  · rw [heq] at h
    exact hproceed _ _ _ h

namespace Session

section Settle

variable (scene : Scene σ)

/-- Letting all runs go on is letting each of them go on in turn. -/
theorem resumeAll_eq_after (session : Session σ) (earlier tasks : List Task)
    (h : session.tasks = earlier ++ tasks) :
    { session with
        controller := (session.controller.resumeAll scene session.clock tasks).1
        tasks := earlier ++ (session.controller.resumeAll scene session.clock tasks).2 }
      = session.after scene ((List.range' earlier.length tasks.length).map .resume) := by
  induction tasks generalizing session earlier with
  | nil =>
    obtain ⟨controller, clock, tasks, receivers⟩ := session
    obtain rfl := h
    rfl
  | cons task tasks ih =>
    have htask : session.tasks[earlier.length]? = some task := by simp [h]
    have hnext : session.happen scene (.resume earlier.length)
        = { session with
            controller := (session.controller.resume scene session.clock task).1
            tasks := earlier
              ++ (session.controller.resume scene session.clock task).2 :: tasks } := by
      rw [happen, changeRun_of_eq_some htask, h]
      simp
    have hrest := ih (session.happen scene (.resume earlier.length))
      (earlier ++ [(session.controller.resume scene session.clock task).2])
      (by simp [hnext])
    simp only [List.length_cons, List.range'_succ, List.map_cons, after_cons]
    rw [List.length_append, List.length_singleton] at hrest
    rw [← hrest, hnext]
    simp [Controller.resumeAll]

/-- A history leads from one session to another. -/
def LeadsTo (session session' : Session σ) : Prop :=
  ∃ history, session' = session.after scene history

variable {scene}

theorem LeadsTo.refl (session : Session σ) : session.LeadsTo scene session := ⟨[], rfl⟩

theorem LeadsTo.trans {session session' session'' : Session σ}
    (h : session.LeadsTo scene session') (h' : session'.LeadsTo scene session'') :
    session.LeadsTo scene session'' := by
  obtain ⟨history, rfl⟩ := h
  obtain ⟨more, rfl⟩ := h'
  exact ⟨history ++ more, (after_append scene session history more).symm⟩

theorem leadsTo_happen (session : Session σ) (happening : Happening σ) :
    session.LeadsTo scene (session.happen scene happening) := ⟨[happening], rfl⟩

theorem leadsTo_settle (session : Session σ) : session.LeadsTo scene (session.settle scene) :=
  ⟨_, resumeAll_eq_after scene session [] session.tasks rfl⟩

/-- Time passes. -/
theorem leadsTo_clock (session : Session σ) {time : Nat} (h : session.clock ≤ time) :
    session.LeadsTo scene { session with clock := time } := by
  have hclock : { session with clock := time }
      = session.happen scene (.elapse (time - session.clock)) := by
    rw [happen, Nat.add_sub_cancel' h]
  exact hclock ▸ leadsTo_happen session _

theorem leadsTo_elapseTo (target : Nat) (session : Session σ) :
    session.LeadsTo scene (session.elapseTo scene target) := by
  fun_induction elapseTo scene target session with
  | case1 session hwake => exact leadsTo_clock session (Nat.le_max_left _ _)
  | case2 session wake hwake hdue ih =>
    exact ((leadsTo_clock session (Nat.le_of_lt hdue.1)).trans (leadsTo_settle _)).trans ih
  | case3 session wake hwake hdue => exact leadsTo_clock session (Nat.le_max_left _ _)

theorem leadsTo_runOut (session : Session σ) : session.LeadsTo scene (session.runOut scene) := by
  fun_induction runOut scene session with
  | case1 session hwake => exact .refl session
  | case2 session wake hwake ih =>
    exact ((leadsTo_clock session (Nat.le_max_left _ _)).trans (leadsTo_settle _)).trans ih

/-- Order is kept along histories. -/
theorem Orderly.of_leadsTo {session session' : Session σ} (h : session.Orderly)
    (hleads : session.LeadsTo scene session') : session'.Orderly := by
  obtain ⟨history, rfl⟩ := hleads
  exact after_induction scene h (fun _ happening h => h.happen scene happening) history

/-! ## Settled sessions -/

/-- No run waits for a scene that is free. -/
def Settled (session : Session σ) : Prop :=
  ∀ program, Task.waiting program ∈ session.tasks → session.controller.holder ≠ none

/-- If at most one run is in flight, it does not wait for a free scene after all have gone on. -/
theorem holder_resumeAll_of_waiting (scene : Scene σ) (now : Nat) (controller : Controller σ)
    {tasks : List Task} (hone : tasks.countP Task.inFlight ≤ 1) {program : Program}
    (hmem : Task.waiting program ∈ (controller.resumeAll scene now tasks).2) :
    (controller.resumeAll scene now tasks).1.holder ≠ none := by
  induction tasks generalizing controller with
  | nil => simp [Controller.resumeAll] at hmem
  | cons task tasks ih =>
    rw [Controller.resumeAll_cons] at hmem ⊢
    cases hflight : task.inFlight with
    | false =>
      rw [Controller.resume_of_not_inFlight scene now controller hflight] at hmem ⊢
      have hne : Task.waiting program ≠ task := by
        rintro rfl
        simp [Task.inFlight] at hflight
      rw [List.countP_cons_of_neg (by simp [hflight])] at hone
      exact ih controller hone ((List.mem_cons.1 hmem).resolve_left hne)
    | true =>
      -- No other run is in flight, so this one alone goes on.
      have hrest : ∀ other ∈ tasks, other.inFlight = false := by
        rw [List.countP_cons_of_pos hflight] at hone
        have hzero : tasks.countP Task.inFlight = 0 := by omega
        simpa [List.countP_eq_zero] using hzero
      have hwaits : Task.waiting program ∉ tasks := by
        intro h
        simpa [Task.inFlight] using hrest _ h
      rw [Controller.resumeAll_of_not_inFlight scene now _ hrest] at hmem ⊢
      have htask := (List.mem_cons.1 hmem).resolve_right hwaits
      obtain ⟨heq, hholder⟩ | ⟨other, -, -, heq⟩ | ⟨other, execution, wake, -, heq⟩ :=
        controller.resume_cases scene now task
      · rw [heq] at htask ⊢
        exact hholder program htask.symm
      · rw [heq] at htask
        exact absurd htask (Controller.waiting_ne_proceed scene now _ other _ program)
      · rw [heq] at htask
        exact absurd htask (Controller.waiting_ne_proceed scene now _ other _ program)

/-- A session in order is settled after every run has gone on as far as it can. -/
theorem Orderly.settled_settle {session : Session σ} (h : session.Orderly) :
    (session.settle scene).Settled := fun program hmem =>
  holder_resumeAll_of_waiting scene session.clock session.controller
    (by rw [h.running]; exact Bool.toNat_le _) hmem

/-- Order and settledness together: what every operation keeps. -/
structure Steady (session : Session σ) : Prop where
  orderly : session.Orderly
  settled : session.Settled

theorem Orderly.steady_settle {session : Session σ} (h : session.Orderly) :
    (session.settle scene).Steady :=
  ⟨h.of_leadsTo (leadsTo_settle session), h.settled_settle⟩

theorem Steady.elapseTo {session : Session σ} (h : session.Steady) (target : Nat) :
    (session.elapseTo scene target).Steady := by
  fun_induction Session.elapseTo scene target session with
  | case1 session hwake => exact ⟨⟨h.orderly.running, h.orderly.holding⟩, h.settled⟩
  | case2 session wake hwake hdue ih =>
    exact ih (Orderly.steady_settle ⟨h.orderly.running, h.orderly.holding⟩)
  | case3 session wake hwake hdue => exact ⟨⟨h.orderly.running, h.orderly.holding⟩, h.settled⟩

theorem Steady.runOut {session : Session σ} (h : session.Steady) :
    (session.runOut scene).Steady := by
  fun_induction Session.runOut scene session with
  | case1 session hwake => exact h
  | case2 session wake hwake ih =>
    exact ih (Orderly.steady_settle ⟨h.orderly.running, h.orderly.holding⟩)

theorem holder_resumeAll (scene : Scene σ) (now : Nat) {controller : Controller σ}
    {tasks : List Task}
    (h : (controller.resumeAll scene now tasks).1.holder = some .visitor) :
    controller.holder = some .visitor := by
  induction tasks generalizing controller with
  | nil => exact h
  | cons task tasks ih => exact Controller.holder_resume scene now (ih h)

/-- Runs that go on do not take the scene for a visitor. -/
theorem taken_runOut {session : Session σ} (h : (session.runOut scene).taken = true) :
    session.taken = true := by
  fun_induction Session.runOut scene session with
  | case1 session hwake => exact h
  | case2 session wake hwake ih =>
    have hsettled := ih h
    rw [taken, decide_eq_true_eq] at hsettled ⊢
    exact holder_resumeAll scene _ hsettled

theorem nextWake?_eq_none_iff {session : Session σ} :
    session.nextWake? = none ↔ ∀ task ∈ session.tasks, task.holdsScene = false := by
  rw [nextWake?, List.min?_eq_none_iff, List.filterMap_eq_nil_iff]
  refine forall₂_congr fun task _ => ?_
  cases task <;> simp [Task.wake?, Task.holdsScene]

theorem nextWake?_runOut (session : Session σ) : (session.runOut scene).nextWake? = none := by
  fun_induction Session.runOut scene session with
  | case1 session hwake => exact hwake
  | case2 session wake hwake ih => exact ih

/-- Once the runs have run out the scene is free, unless it is kept from outside. -/
theorem Orderly.holder_runOut {session : Session σ} (h : session.Orderly)
    (htaken : session.taken = false) : (session.runOut scene).controller.holder = none := by
  cases hholder : (session.runOut scene).controller.holder with
  | none => rfl
  | some holder =>
    cases holder with
    | run =>
      have hcount := (h.of_leadsTo (@leadsTo_runOut σ scene session)).holding
      rw [Controller.heldByRun_iff.2 hholder] at hcount
      obtain ⟨other, hother, hholds⟩ :=
        List.countP_pos_iff.1 (show 0 < _ by rw [hcount]; decide)
      have hrests := nextWake?_eq_none_iff.1 (@nextWake?_runOut σ scene session) other hother
      simp [hrests] at hholds
    | visitor =>
      have htaken' : session.taken = true :=
        @taken_runOut σ scene session (by simp [taken, hholder])
      simp [htaken] at htaken'

/-- **Once the runs of a steady session have run out, none is in flight**, unless somebody from
outside keeps the scene. -/
theorem Steady.not_inFlight_runOut {session : Session σ} (h : session.Steady)
    (htaken : session.taken = false) {task : Task} (hmem : task ∈ (session.runOut scene).tasks) :
    task.inFlight = false := by
  cases task with
  | waiting program =>
    exact absurd (h.orderly.holder_runOut htaken) (h.runOut.settled program hmem)
  | resting program execution wake =>
    have hrests := nextWake?_eq_none_iff.1 (@nextWake?_runOut σ scene session) _ hmem
    simp [Task.holdsScene] at hrests
  | answered result => rfl
  | cancelled => rfl

/-! ## Operations -/

/-- What an operation drops after it has answered: a run that has been awaited, or the uses of the
scene that have been told. -/
def dropTold : Op → Session σ → Session σ
  | .run, session => { session with tasks := session.tasks.dropLast }
  | .join, session => { session with tasks := session.tasks.tail }
  | .calls, session => session.modify fun controller => { controller with calls := #[] }
  | _, session => session

theorem request_eq_settle (session : Session σ) :
    session.request scene = (session.happen scene .request).settle scene := rfl

theorem Steady.request {session : Session σ} (h : session.Steady) :
    (session.request scene).Steady := (h.orderly.request scene).steady_settle

/-- A request does not take the scene for a visitor. -/
theorem taken_request {session : Session σ} (h : session.taken = false) :
    (session.request scene).taken = false := by
  cases htaken : (session.request scene).taken with
  | false => rfl
  | true =>
    rw [request_eq_settle, taken, decide_eq_true_eq] at htaken
    have hholder : (session.happen scene .request).controller.holder = some .visitor :=
      holder_resumeAll scene _ htaken
    have hsame : (session.happen scene .request).controller.holder
        = session.controller.holder := by
      rw [happen, Controller.request]
      split <;> rfl
    rw [hsame] at hholder
    simp [taken, hholder] at h

theorem leadsTo_request (session : Session σ) : session.LeadsTo scene (session.request scene) :=
  (leadsTo_happen session .request).trans (leadsTo_settle _)

theorem abort_eq (session : Session σ) :
    session.abort scene = session ∨
      session.abort scene = (session.happen scene (.abort 0)).settle scene := by
  obtain ⟨controller, clock, tasks, receivers⟩ := session
  cases tasks with
  | nil => exact .inl rfl
  | cons task tasks => exact .inr rfl

theorem Steady.abort {session : Session σ} (h : session.Steady) :
    (session.abort scene).Steady := by
  rcases @abort_eq σ scene session with heq | heq <;> rw [heq]
  · exact h
  · exact (h.orderly.happen scene (.abort 0)).steady_settle

theorem leadsTo_abort (session : Session σ) : session.LeadsTo scene (session.abort scene) := by
  rcases @abort_eq σ scene session with heq | heq <;> rw [heq]
  · exact .refl session
  · exact (leadsTo_happen session (.abort 0)).trans (leadsTo_settle _)

/-- Whoever waits for the scene gets it when the runs have run out. -/
theorem Steady.awaitScene {session session' : Session σ} (h : session.Steady)
    (hawait : session.awaitScene scene = .ok session') :
    session'.Steady ∧ session.LeadsTo scene session' ∧ session'.controller.holder = none := by
  cases htaken : session.taken with
  | true => simp [Session.awaitScene, htaken] at hawait
  | false =>
    simp only [Session.awaitScene, htaken, Bool.false_eq_true, if_false] at hawait
    obtain rfl := Except.ok.inj hawait
    exact ⟨h.runOut, leadsTo_runOut session, h.orderly.holder_runOut htaken⟩

/-- Somebody takes a scene that is free. -/
theorem Steady.take {session : Session σ} (h : session.Steady)
    (hfree : session.controller.holder = none) :
    let session' := session.modify fun controller => { controller with holder := some .visitor }
    session'.Steady ∧ session.LeadsTo scene session' := by
  intro session'
  have htake : session.happen scene .take = session' := by simp [session', happen, hfree]
  refine ⟨⟨htake ▸ h.orderly.happen scene .take, fun program _ => ?_⟩,
    htake ▸ leadsTo_happen session .take⟩
  simp [session', modify]

/-- Somebody changes a scene that is free. -/
theorem Steady.change {session : Session σ} (h : session.Steady)
    (hfree : session.controller.holder = none) (change : σ → σ) :
    let session' := session.modify fun controller =>
      { controller with scene := change controller.scene }
    session'.Steady ∧ session.LeadsTo scene session' := by
  intro session'
  have hchange : session.happen scene (.change change) = session' := by
    simp [session', happen, hfree]
  exact ⟨⟨hchange ▸ h.orderly.happen scene (.change change), h.settled⟩,
    hchange ▸ leadsTo_happen session (.change change)⟩

/-- Somebody who has the scene gives it back, and the runs go on. -/
theorem Steady.giveBack {session : Session σ} (h : session.Steady)
    (htaken : session.taken = true) :
    let session' := (session.modify fun controller =>
      { controller with holder := none }).settle scene
    session'.Steady ∧ session.LeadsTo scene session' := by
  intro session'
  have hback : (session.happen scene .giveBack).settle scene = session' := by
    simp [session', happen, htaken]
  rw [← hback]
  exact ⟨(h.orderly.happen scene .giveBack).steady_settle,
    (leadsTo_happen session .giveBack).trans (leadsTo_settle _)⟩

/-- Dropping runs that are not in flight keeps a session steady. -/
theorem Steady.of_sublist {session : Session σ} (h : session.Steady) {tasks : List Task}
    (hsub : tasks.Sublist session.tasks)
    (hflight : tasks.countP Task.inFlight = session.tasks.countP Task.inFlight)
    (hholds : tasks.countP Task.holdsScene = session.tasks.countP Task.holdsScene) :
    Steady { session with tasks } :=
  ⟨⟨hflight.trans h.orderly.running, hholds.trans h.orderly.holding⟩,
    fun program hmem => h.settled program (hsub.subset hmem)⟩

/-- Runs may be dropped from a steady session when none is in flight. -/
theorem Steady.of_sublist_of_idle {session : Session σ} (h : session.Steady) {tasks : List Task}
    (hsub : tasks.Sublist session.tasks)
    (hidle : ∀ task ∈ session.tasks, task.inFlight = false) :
    Steady { session with tasks } := by
  have hflight : session.tasks.countP Task.inFlight = 0 := by
    simpa [List.countP_eq_zero] using hidle
  have hholds : session.tasks.countP Task.holdsScene = 0 := by
    refine List.countP_eq_zero.2 fun task hmem hholds => ?_
    simpa [hidle task hmem] using Task.inFlight_of_holdsScene hholds
  have hflight' := hsub.countP_le (p := Task.inFlight)
  have hholds' := hsub.countP_le (p := Task.holdsScene)
  exact h.of_sublist hsub (by omega) (by omega)

theorem runNow_of_running {session : Session σ} (h : session.controller.running = true) :
    session.runNow scene = .ok (session, .result none) := by
  rw [runNow, if_pos h]

theorem runNow_of_taken {session : Session σ} (h : session.controller.running = false)
    (htaken : session.taken = true) : session.runNow scene = .error .sceneTaken := by
  rw [runNow, if_neg (by simp [h]), if_pos htaken]
  rfl

theorem runNow_of_free {session : Session σ} (h : session.controller.running = false)
    (htaken : session.taken = false) :
    session.runNow scene
      = .ok ({ (session.request scene).runOut scene with
                tasks := ((session.request scene).runOut scene).tasks.dropLast },
          (((session.request scene).runOut scene).tasks.getLast?.map answerOf).getD
            .nothing) := by
  rw [runNow, if_neg (by simp [h]), if_neg (by simp [htaken])]
  rfl

theorem Steady.runNow {session session' : Session σ} (h : session.Steady) {answer : Answer σ}
    (hstep : session.runNow scene = .ok (session', answer)) :
    session'.Steady ∧ ∃ last, session.LeadsTo scene last ∧ session' = dropTold .run last := by
  cases hrunning : session.controller.running with
  | true =>
    rw [runNow_of_running hrunning] at hstep
    obtain ⟨rfl, -⟩ := Prod.mk.inj (Except.ok.inj hstep)
    exact ⟨h, _, leadsTo_happen session .request,
      by simp [dropTold, happen, Controller.request, hrunning]⟩
  | false =>
    cases htaken : session.taken with
    | true =>
      rw [runNow_of_taken hrunning htaken] at hstep
      simp at hstep
    | false =>
      rw [runNow_of_free hrunning htaken] at hstep
      obtain ⟨rfl, -⟩ := Prod.mk.inj (Except.ok.inj hstep)
      refine ⟨?_, _, (leadsTo_request session).trans (leadsTo_runOut _), rfl⟩
      exact h.request.runOut.of_sublist_of_idle (List.dropLast_sublist _)
        fun other hmem => h.request.not_inFlight_runOut (taken_request htaken) hmem

theorem Steady.join {session session' : Session σ} (h : session.Steady) {answer : Answer σ}
    (hstep : session.join scene = .ok (session', answer)) :
    session'.Steady ∧ ∃ last, session.LeadsTo scene last ∧ session' = dropTold .join last := by
  cases htaken : session.taken with
  | true => simp [Session.join, htaken] at hstep
  | false =>
    cases htasks : session.tasks with
    | nil => simp [Session.join, htaken, htasks] at hstep
    | cons task tasks =>
      cases hflight : task.inFlight with
      | true =>
        simp [Session.join, htaken, htasks, hflight] at hstep
        obtain ⟨rfl, -⟩ := hstep
        refine ⟨?_, _, leadsTo_runOut session, rfl⟩
        exact h.runOut.of_sublist_of_idle (List.tail_sublist _)
          fun other hmem => h.not_inFlight_runOut htaken hmem
      | false =>
        simp [Session.join, htaken, htasks, hflight] at hstep
        obtain ⟨rfl, -⟩ := hstep
        have hholds : task.holdsScene = false := by
          cases hholds : task.holdsScene with
          | true => simp [Task.inFlight_of_holdsScene hholds] at hflight
          | false => rfl
        refine ⟨?_, _, .refl session, by simp [dropTold, htasks]⟩
        refine h.of_sublist (by simp [htasks]) ?_ ?_
        · rw [htasks, List.countP_cons_of_neg (by simp [hflight])]
        · rw [htasks, List.countP_cons_of_neg (by simp [hholds])]

/-- **Every operation amounts to a history**, after which it may drop what it has answered, and a
steady session stays steady. -/
theorem Steady.step {session session' : Session σ} (h : session.Steady) {op : Op}
    {answer : Answer σ} (hstep : session.step scene op = .ok (session', answer)) :
    session'.Steady ∧ ∃ last, session.LeadsTo scene last ∧ session' = dropTold op last := by
  cases op with
  | run => exact h.runNow hstep
  | start =>
    obtain ⟨rfl, -⟩ := Prod.mk.inj (Except.ok.inj hstep)
    exact ⟨h.request, _, leadsTo_request session, rfl⟩
  | wait duration =>
    obtain ⟨rfl, -⟩ := Prod.mk.inj (Except.ok.inj hstep)
    exact ⟨h.elapseTo _, _, leadsTo_elapseTo _ session, rfl⟩
  | join => exact h.join hstep
  | abort =>
    obtain ⟨rfl, -⟩ := Prod.mk.inj (Except.ok.inj hstep)
    exact ⟨h.abort, _, leadsTo_abort session, rfl⟩
  | setProgram program =>
    obtain ⟨rfl, -⟩ := Prod.mk.inj (Except.ok.inj hstep)
    exact ⟨⟨h.orderly.happen scene (.setProgram program), h.settled⟩, _,
      leadsTo_happen session (.setProgram program), rfl⟩
  | scene =>
    obtain ⟨session'', hawait, hrest⟩ := bind_eq_ok hstep
    obtain ⟨hsteady, hleads, -⟩ := h.awaitScene hawait
    obtain ⟨rfl, -⟩ := Prod.mk.inj (Except.ok.inj hrest)
    exact ⟨hsteady, _, hleads, rfl⟩
  | lock =>
    obtain ⟨session'', hawait, hrest⟩ := bind_eq_ok hstep
    obtain ⟨hsteady, hleads, hfree⟩ := h.awaitScene hawait
    obtain ⟨rfl, -⟩ := Prod.mk.inj (Except.ok.inj hrest)
    obtain ⟨htaken, htake⟩ := hsteady.take hfree
    exact ⟨htaken, _, hleads.trans htake, rfl⟩
  | unlock =>
    cases htaken : session.taken with
    | true =>
      simp only [Session.step, htaken, if_true] at hstep
      obtain ⟨rfl, -⟩ := Prod.mk.inj (Except.ok.inj hstep)
      obtain ⟨hsteady, hback⟩ := h.giveBack htaken
      exact ⟨hsteady, _, hback, rfl⟩
    | false =>
      simp only [Session.step, htaken, Bool.false_eq_true, if_false] at hstep
      obtain ⟨rfl, -⟩ := Prod.mk.inj (Except.ok.inj hstep)
      exact ⟨h, _, .refl session, rfl⟩
  | poke poke =>
    obtain ⟨session'', hawait, hrest⟩ := bind_eq_ok hstep
    obtain ⟨hsteady, hleads, hfree⟩ := h.awaitScene hawait
    obtain ⟨rfl, -⟩ := Prod.mk.inj (Except.ok.inj hrest)
    obtain ⟨hsteady', hchange⟩ := hsteady.change hfree fun state => poke.apply scene state
    exact ⟨hsteady', _, hleads.trans hchange, rfl⟩
  | subscribe =>
    obtain ⟨rfl, -⟩ := Prod.mk.inj (Except.ok.inj hstep)
    exact ⟨⟨h.orderly.happen scene .subscribe, h.settled⟩, _,
      leadsTo_happen session .subscribe, rfl⟩
  | drain receiver =>
    have hdrain := @leadsTo_happen σ scene session (.drain receiver)
    have horderly := h.orderly.happen scene (.drain receiver)
    cases hreader : session.receivers[receiver]? with
    | none => simp [Session.step, hreader] at hstep
    | some reader =>
      simp only [Session.step, hreader] at hstep
      obtain ⟨rfl, -⟩ := Prod.mk.inj (Except.ok.inj hstep)
      simp only [happen, hreader] at hdrain horderly
      exact ⟨⟨horderly, h.settled⟩, _, hdrain, rfl⟩
  | calls =>
    obtain ⟨rfl, -⟩ := Prod.mk.inj (Except.ok.inj hstep)
    exact ⟨⟨⟨h.orderly.running, h.orderly.holding⟩, h.settled⟩, _, .refl session, rfl⟩
  | program | events | lastResult | tryScene | pacing =>
    obtain ⟨rfl, -⟩ := Prod.mk.inj (Except.ok.inj hstep)
    exact ⟨h, _, .refl _, rfl⟩

/-! ## Lists of operations -/

/-- A session after an operation; one that cannot be done leaves the session alone. -/
def perform (scene : Scene σ) (session : Session σ) (op : Op) : Session σ :=
  match session.step scene op with
  | .ok (session', _) => session'
  | .error _ => session

/-- A session after a list of operations. -/
def performAll (scene : Scene σ) (session : Session σ) (ops : List Op) : Session σ :=
  ops.foldl (perform scene) session

theorem Steady.perform {session : Session σ} (h : session.Steady) (op : Op) :
    (session.perform scene op).Steady := by
  rw [Session.perform]
  cases hstep : session.step scene op with
  | error misuse => exact h
  | ok next => exact (h.step hstep).1

/-- **A session stays steady whatever is done in it.** -/
theorem steady_performAll (scene : Scene σ) (pacing : Pacing) (program : Program) (state : σ)
    (ops : List Op) : ((opening pacing program state).performAll scene ops).Steady := by
  have hall : ∀ session : Session σ, session.Steady → (session.performAll scene ops).Steady := by
    induction ops with
    | nil => exact fun session h => h
    | cons op ops ih => exact fun session h => ih _ (h.perform op)
  exact hall _ ⟨orderly_opening pacing program state, by simp [Settled, opening]⟩

/-- **One run at a time.**  Whatever has happened to a controller, and whatever has been done in a
session, at most one run is in flight, nobody gets the scene from a run that has it, and a request
while a run is in flight is rejected and changes nothing. -/
theorem one_run_at_a_time (scene : Scene σ) (pacing : Pacing) (program : Program) (state : σ) :
    (∀ history, ((opening pacing program state).after scene history).Exclusive scene)
      ∧ ∀ ops, ((opening pacing program state).performAll scene ops).Exclusive scene :=
  ⟨fun history => (orderly_after scene pacing program state history).exclusive scene,
    fun ops => (steady_performAll scene pacing program state ops).orderly.exclusive scene⟩

end Settle

end Session
end BlockScript
