import BlockScript.Controller.Session
import Mathlib.Data.List.Basic

/-!
# Histories

A session lets its runs go on as soon as they can, the oldest first, and does so after everything
else that is done in it.  What is proved about controllers shall not rest on that order.  So a
*history* here is any list of the single things that can happen to a controller in use: a run is
requested, or one run goes on, or one is aborted, time passes, somebody takes the scene.  What is
not possible at a moment, such as taking a scene that is not free, does not happen.

## What is here

* `Session.Happening` and `Session.happen` — the single things that can happen, and what they do.
* `Session.opening` — a controller that has not been used yet; `Session.after` — a session after a
  history, with `Session.after_induction` for what every happening preserves.

That every operation of a session amounts to a history is proved apart (`Session.Steady.step`).
-/

set_option autoImplicit false
namespace BlockScript
namespace Session

variable {σ : Type}

/-! ## Happenings -/

/-- One thing that can happen to a controller in use.  Runs are numbered in the order of their
requests. -/
inductive Happening (σ : Type) where
  /-- A run is requested. -/
  | request
  /-- A run goes on as far as it can. -/
  | resume (run : Nat)
  /-- A run is aborted. -/
  | abort (run : Nat)
  /-- So many milliseconds pass. -/
  | elapse (duration : Nat)
  | setProgram (program : Program)
  /-- Somebody from outside takes the scene, if it is free. -/
  | take
  /-- Whoever has the scene from outside gives it back. -/
  | giveBack
  /-- The scene is changed from outside, if no run has it. -/
  | change (change : σ → σ)
  | subscribe
  | drain (receiver : Nat)

/-- Something is done to one of the requested runs, together with the controller. -/
def changeRun (session : Session σ) (run : Nat)
    (change : Controller σ → Task → Controller σ × Task) : Session σ :=
  match session.tasks[run]? with
  | none => session
  | some task =>
    { session with
      controller := (change session.controller task).1
      tasks := session.tasks.set run (change session.controller task).2 }

/-- A session after one thing has happened. -/
def happen (scene : Scene σ) (session : Session σ) : Happening σ → Session σ
  | .request =>
    { session with
      controller := session.controller.request.1
      tasks := session.tasks ++ [session.controller.request.2] }
  | .resume run => session.changeRun run fun controller => controller.resume scene session.clock
  | .abort run => session.changeRun run Controller.abort
  | .elapse duration => { session with clock := session.clock + duration }
  | .setProgram program => session.modify fun controller => { controller with program }
  | .take =>
    if session.controller.holder.isNone then
      session.modify fun controller => { controller with holder := some .visitor }
    else session
  | .giveBack =>
    if session.taken then session.modify fun controller => { controller with holder := none }
    else session
  | .change change =>
    if session.controller.holder = some .run then session
    else session.modify fun controller => { controller with scene := change controller.scene }
  | .subscribe =>
    { session with
      receivers := session.receivers.push session.controller.log.live.subscribe }
  | .drain receiver =>
    match session.receivers[receiver]? with
    | none => session
    | some reader =>
      { session with
        receivers := session.receivers.setIfInBounds receiver
          (session.controller.log.live.drain reader).2 }

/-! ## Histories -/

/-- A controller that has not been used yet. -/
def opening (pacing : Pacing) (program : Program) (state : σ) : Session σ :=
  { controller := { pacing, program, scene := state } }

/-- A session after a history. -/
def after (scene : Scene σ) (session : Session σ) (history : List (Happening σ)) : Session σ :=
  history.foldl (happen scene) session

section After

variable (scene : Scene σ) (session : Session σ)

@[simp] theorem after_nil : session.after scene [] = session := rfl

@[simp] theorem after_cons (happening : Happening σ) (history : List (Happening σ)) :
    session.after scene (happening :: history)
      = (session.happen scene happening).after scene history := rfl

@[simp] theorem after_append (history more : List (Happening σ)) :
    session.after scene (history ++ more) = (session.after scene history).after scene more :=
  List.foldl_append

/-- What every happening preserves holds after every history. -/
theorem after_induction {P : Session σ → Prop} {session : Session σ} (h : P session)
    (hstep : ∀ session happening, P session → P (session.happen scene happening))
    (history : List (Happening σ)) : P (session.after scene history) := by
  induction history generalizing session with
  | nil => exact h
  | cons happening history ih => exact ih (hstep session happening h)

end After

/-! ## Runs -/

section ChangeRun

variable {session : Session σ} {run : Nat} {change : Controller σ → Task → Controller σ × Task}

theorem changeRun_of_eq_none (h : session.tasks[run]? = none) :
    session.changeRun run change = session := by
  rw [changeRun, h]

theorem changeRun_of_eq_some {task : Task} (h : session.tasks[run]? = some task) :
    session.changeRun run change
      = { session with
          controller := (change session.controller task).1
          tasks := session.tasks.set run (change session.controller task).2 } := by
  rw [changeRun, h]

/-- A change that changes nothing for this run changes nothing at all. -/
theorem changeRun_eq_self {task : Task} (h : session.tasks[run]? = some task)
    (hchange : change session.controller task = (session.controller, task)) :
    session.changeRun run change = session := by
  obtain ⟨hrun, htask⟩ := List.getElem?_eq_some_iff.1 h
  rw [changeRun_of_eq_some h, hchange, ← htask, List.set_getElem_self]

end ChangeRun

end Session
end BlockScript
