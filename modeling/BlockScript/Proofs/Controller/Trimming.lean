import BlockScript.Proofs.Controller.Operations
import Mathlib.Data.List.Induction

/-!
# What a session forgets

An operation amounts to a history, but then it drops what it has answered: a run that has been
awaited, the uses of the scene that have been told.  So after two operations the session is not one
that a history leads to, and its runs have other numbers.  This file proves that nothing else is
different, so that a session in which any operations have been done can be read as one after a
history.

## What is here

* `Task.Trimmed` — some runs without those that are over and were dropped; `Session.TrimmedFrom`
  says the same of a session, which may also have forgotten uses of the scene.
* `Session.TrimmedFrom.happen` — what happens in the trimmed session can happen in the whole one.
* `Session.trimmedFrom_performAll` — every session is one after a history, trimmed.
-/

set_option autoImplicit false
namespace BlockScript

variable {σ : Type}

/-! ## Runs that were dropped -/

/-- Some runs without those that were dropped, all of which are over. -/
inductive Task.Trimmed : List Task → List Task → Prop where
  | nil : Trimmed [] []
  | keep (task : Task) {tasks kept : List Task} (h : Trimmed tasks kept) :
    Trimmed (task :: tasks) (task :: kept)
  | drop {task : Task} {tasks kept : List Task} (hover : task.inFlight = false)
    (h : Trimmed tasks kept) : Trimmed (task :: tasks) kept

namespace Task.Trimmed

variable {tasks kept : List Task}

theorem refl : ∀ tasks : List Task, Trimmed tasks tasks
  | [] => .nil
  | task :: tasks => .keep task (refl tasks)

theorem append (h : Trimmed tasks kept) (task : Task) :
    Trimmed (tasks ++ [task]) (kept ++ [task]) := by
  induction h with
  | nil => exact refl [task]
  | keep first h ih => exact .keep first ih
  | drop hover h ih => exact .drop hover ih

/-- A run that was kept has a place among all runs, where it can be changed as well. -/
theorem exists_set (h : Trimmed tasks kept) {run : Nat} {task : Task}
    (hrun : kept[run]? = some task) :
    ∃ place, tasks[place]? = some task
      ∧ ∀ task', Trimmed (tasks.set place task') (kept.set run task') := by
  induction h generalizing run with
  | nil => simp at hrun
  | keep first h ih =>
    cases run with
    | zero => exact ⟨0, by simpa using hrun, fun task' => .keep task' h⟩
    | succ run =>
      obtain ⟨place, hplace, hset⟩ := ih (by simpa using hrun)
      exact ⟨place + 1, by simpa using hplace, fun task' => .keep first (hset task')⟩
  | drop hover h ih =>
    obtain ⟨place, hplace, hset⟩ := ih hrun
    exact ⟨place + 1, by simpa using hplace, fun task' => .drop hover (hset task')⟩

/-- Dropping the first run keeps runs trimmed if it is over. -/
theorem tail (h : Trimmed tasks kept)
    (hover : kept.tail.countP Task.inFlight = kept.countP Task.inFlight) :
    Trimmed tasks kept.tail := by
  induction h with
  | nil => exact .nil
  | keep first h ih =>
    refine .drop ?_ h
    cases hflight : first.inFlight with
    | false => rfl
    | true =>
      rw [List.tail_cons, List.countP_cons_of_pos hflight] at hover
      omega
  | drop hfirst h ih => exact .drop hfirst (ih hover)

/-- Dropping the last run keeps runs trimmed if it is over. -/
theorem dropLast (h : Trimmed tasks kept)
    (hover : kept.dropLast.countP Task.inFlight = kept.countP Task.inFlight) :
    Trimmed tasks kept.dropLast := by
  induction h with
  | nil => exact .nil
  | @keep first tasks kept h ih =>
    cases kept with
    | nil =>
      refine .drop ?_ h
      cases hflight : first.inFlight with
      | false => rfl
      | true => simp [hflight] at hover
    | cons second kept =>
      refine .keep first (ih ?_)
      rw [List.dropLast_cons_cons, List.countP_cons, List.countP_cons] at hover
      omega
  | drop hfirst h ih => exact .drop hfirst (ih hover)

end Task.Trimmed

/-! ## Uses of the scene that were forgotten -/

namespace Controller

/-- Two controllers that differ at most in the uses of the scene that they have recorded. -/
def Forgot (whole controller : Controller σ) : Prop := ∃ calls, controller = { whole with calls }

theorem Forgot.refl (controller : Controller σ) : controller.Forgot controller :=
  ⟨controller.calls, rfl⟩

variable (scene : Scene σ) (now : Nat) {whole controller : Controller σ}

/-- A run does the same whatever has been recorded of the scene. -/
theorem Forgot.proceed (h : whole.Forgot controller) (program : Program) (execution : Execution) :
    (whole.proceed scene now program execution).1.Forgot
        (controller.proceed scene now program execution).1
      ∧ (controller.proceed scene now program execution).2
        = (whole.proceed scene now program execution).2 := by
  obtain ⟨calls, rfl⟩ := h
  obtain ⟨⟨effects, state, stop⟩, hadvance⟩ :
      ∃ r, execution.advance scene whole.pacing #[] whole.scene = r := ⟨_, rfl⟩
  have hforgot : effects.foldl (note now) { whole with scene := state, calls }
      = { whole.noted now effects.toList state with
          calls := calls ++ (Effect.calls effects.toList).map (now, ·) } :=
    foldl_note_array now { whole with calls } effects state
  cases stop with
  | resting duration execution' =>
    simp only [Controller.proceed, hadvance, hforgot, foldl_note_array, and_true]
    exact ⟨_, rfl⟩
  | finished outcome =>
    simp only [Controller.proceed, hadvance, hforgot, foldl_note_array, and_true]
    exact ⟨_, rfl⟩

theorem Forgot.resume (h : whole.Forgot controller) (task : Task) :
    (whole.resume scene now task).1.Forgot (controller.resume scene now task).1
      ∧ (controller.resume scene now task).2 = (whole.resume scene now task).2 := by
  cases task with
  | waiting program =>
    have hholder : controller.holder = whole.holder := by
      obtain ⟨calls, rfl⟩ := h
      rfl
    have hacquire : (whole.acquire scene now).Forgot (controller.acquire scene now) := by
      obtain ⟨calls, rfl⟩ := h
      exact ⟨_, rfl⟩
    simp only [Controller.resume, hholder]
    split
    · exact hacquire.proceed scene now program _
    · exact ⟨h, rfl⟩
  | resting program execution wake =>
    simp only [Controller.resume]
    split
    · exact h.proceed scene now program execution
    · exact ⟨h, rfl⟩
  | answered result => exact ⟨h, rfl⟩
  | cancelled => exact ⟨h, rfl⟩

theorem Forgot.abort (h : whole.Forgot controller) (task : Task) :
    (whole.abort task).1.Forgot (controller.abort task).1
      ∧ (controller.abort task).2 = (whole.abort task).2 := by
  obtain ⟨calls, rfl⟩ := h
  cases task with
  | waiting program => exact ⟨⟨calls, rfl⟩, rfl⟩
  | resting program execution wake => exact ⟨⟨calls, rfl⟩, rfl⟩
  | answered result => exact ⟨⟨calls, rfl⟩, rfl⟩
  | cancelled => exact ⟨⟨calls, rfl⟩, rfl⟩

end Controller

/-! ## Trimmed sessions -/

namespace Session

/-- A session that has dropped some runs which are over, and forgotten some uses of the scene. -/
structure TrimmedFrom (session whole : Session σ) : Prop where
  controller : whole.controller.Forgot session.controller
  clock : session.clock = whole.clock
  receivers : session.receivers = whole.receivers
  tasks : Task.Trimmed whole.tasks session.tasks

variable {session whole : Session σ}

theorem TrimmedFrom.refl (session : Session σ) : session.TrimmedFrom session :=
  ⟨.refl _, rfl, rfl, .refl _⟩

/-- What is done to a run that was kept can be done to it among all runs. -/
theorem TrimmedFrom.changeRun (h : session.TrimmedFrom whole)
    (change : Controller σ → Task → Controller σ × Task)
    (hchange : ∀ task, (change whole.controller task).1.Forgot (change session.controller task).1
      ∧ (change session.controller task).2 = (change whole.controller task).2) (run : Nat) :
    session.changeRun run change = session
      ∨ ∃ place, (session.changeRun run change).TrimmedFrom (whole.changeRun place change) := by
  cases hrun : session.tasks[run]? with
  | none => exact .inl (changeRun_of_eq_none hrun)
  | some task =>
    obtain ⟨place, hplace, hset⟩ := h.tasks.exists_set hrun
    obtain ⟨hforgot, htask⟩ := hchange task
    refine .inr ⟨place, ?_⟩
    rw [changeRun_of_eq_some hrun, changeRun_of_eq_some hplace]
    exact ⟨hforgot, h.clock, h.receivers, htask ▸ hset _⟩

/-- **What happens in a trimmed session can happen in the whole one**: to the same run, which may
have another number there. -/
theorem TrimmedFrom.happen (h : session.TrimmedFrom whole) (scene : Scene σ)
    (happening : Happening σ) :
    ∃ history, (session.happen scene happening).TrimmedFrom (whole.after scene history) := by
  obtain ⟨calls, hcontroller⟩ := h.controller
  cases happening with
  | request =>
    refine ⟨[.request], ?_, h.clock, h.receivers, ?_⟩
    · simp only [after_cons, after_nil, Session.happen, Controller.request, hcontroller]
      split <;> exact ⟨calls, rfl⟩
    · have hsame : session.controller.request.2 = whole.controller.request.2 := by
        simp only [Controller.request, hcontroller]
        split <;> rfl
      simp only [after_cons, after_nil, Session.happen, hsame]
      exact h.tasks.append _
  | resume run =>
    rcases h.changeRun (fun controller => controller.resume scene session.clock)
      (fun task => h.controller.resume scene session.clock task) run with heq | ⟨place, hplace⟩
    · exact ⟨[], by rw [Session.happen, heq]; exact h⟩
    · refine ⟨[.resume place], ?_⟩
      rw [h.clock] at hplace
      rw [Session.happen, h.clock]
      exact hplace
  | abort run =>
    rcases h.changeRun Controller.abort (fun task => h.controller.abort task) run with
      heq | ⟨place, hplace⟩
    · exact ⟨[], by rw [Session.happen, heq]; exact h⟩
    · exact ⟨[.abort place], hplace⟩
  | elapse duration =>
    exact ⟨[.elapse duration], h.controller, congrArg (· + duration) h.clock, h.receivers, h.tasks⟩
  | setProgram program =>
    exact ⟨[.setProgram program], ⟨calls, by simp [Session.happen, modify, hcontroller]⟩, h.clock,
      h.receivers, h.tasks⟩
  | take =>
    refine ⟨[.take], ?_⟩
    simp only [after_cons, after_nil, Session.happen, hcontroller]
    split
    · exact ⟨⟨calls, by simp [modify, hcontroller]⟩, h.clock, h.receivers, h.tasks⟩
    · exact h
  | giveBack =>
    refine ⟨[.giveBack], ?_⟩
    have htaken : session.taken = whole.taken := by simp [taken, hcontroller]
    simp only [after_cons, after_nil, Session.happen, htaken]
    split
    · exact ⟨⟨calls, by simp [modify, hcontroller]⟩, h.clock, h.receivers, h.tasks⟩
    · exact h
  | change change =>
    refine ⟨[.change change], ?_⟩
    simp only [after_cons, after_nil, Session.happen, hcontroller]
    split
    · exact h
    · exact ⟨⟨calls, by simp [modify, hcontroller]⟩, h.clock, h.receivers, h.tasks⟩
  | subscribe =>
    refine ⟨[.subscribe], h.controller, h.clock, ?_, h.tasks⟩
    simp only [after_cons, after_nil, Session.happen, hcontroller, h.receivers]
  | drain receiver =>
    refine ⟨[.drain receiver], ?_⟩
    simp only [after_cons, after_nil, Session.happen, hcontroller, h.receivers]
    split
    · exact h
    · exact ⟨⟨calls, rfl⟩, h.clock, rfl, h.tasks⟩

theorem TrimmedFrom.after (h : session.TrimmedFrom whole) (scene : Scene σ)
    (history : List (Happening σ)) :
    ∃ history', (session.after scene history).TrimmedFrom (whole.after scene history') := by
  induction history generalizing session whole with
  | nil => exact ⟨[], h⟩
  | cons happening history ih =>
    obtain ⟨first, hfirst⟩ := h.happen scene happening
    obtain ⟨rest, hrest⟩ := ih hfirst
    exact ⟨first ++ rest, by rwa [after_append]⟩

/-- What an operation drops is over, so that the session stays trimmed. -/
theorem TrimmedFrom.dropTold (h : session.TrimmedFrom whole) (horderly : session.Orderly) {op : Op}
    (hdropped : (dropTold op session).Orderly) : (dropTold op session).TrimmedFrom whole := by
  have hcount {tasks : List Task} (htasks : Orderly { session with tasks }) :
      tasks.countP Task.inFlight = session.tasks.countP Task.inFlight := by
    rw [horderly.running, ← htasks.running]
  cases op with
  | run => exact ⟨h.controller, h.clock, h.receivers, h.tasks.dropLast (hcount hdropped)⟩
  | join => exact ⟨h.controller, h.clock, h.receivers, h.tasks.tail (hcount hdropped)⟩
  | calls =>
    obtain ⟨calls, hcontroller⟩ := h.controller
    exact ⟨⟨#[], by simp [Session.dropTold, modify, hcontroller]⟩, h.clock, h.receivers, h.tasks⟩
  | _ => exact h

/-- An operation in a trimmed session amounts to a history of the whole one. -/
theorem TrimmedFrom.perform (h : session.TrimmedFrom whole) (scene : Scene σ)
    (hsteady : session.Steady) (op : Op) :
    ∃ history, (session.perform scene op).TrimmedFrom (whole.after scene history) := by
  rw [Session.perform]
  cases hstep : session.step scene op with
  | error misuse => exact ⟨[], h⟩
  | ok next =>
    obtain ⟨hnext, last, ⟨history, rfl⟩, hdropped⟩ := hsteady.step hstep
    obtain ⟨history', hlast⟩ := h.after scene history
    refine ⟨history', ?_⟩
    simp only [hdropped] at hnext ⊢
    exact hlast.dropTold (hsteady.orderly.of_leadsTo ⟨history, rfl⟩) hnext.orderly

/-- **Every session is one after a history, trimmed**, whatever operations have been done in it. -/
theorem trimmedFrom_performAll (scene : Scene σ) (pacing : Pacing) (program : Program) (state : σ)
    (ops : List Op) :
    ∃ history, ((opening pacing program state).performAll scene ops).TrimmedFrom
      ((opening pacing program state).after scene history) := by
  induction ops using List.reverseRecOn with
  | nil => exact ⟨[], .refl _⟩
  | append_singleton ops op ih =>
    obtain ⟨history, h⟩ := ih
    obtain ⟨more, hmore⟩ := h.perform scene
      (steady_performAll scene pacing program state ops) op
    refine ⟨history ++ more, ?_⟩
    rw [after_append, performAll, List.foldl_append]
    exact hmore

end Session

end BlockScript
