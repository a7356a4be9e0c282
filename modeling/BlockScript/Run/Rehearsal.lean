import BlockScript.Run.Timeline

/-!
# Rehearsals

In a rehearsal, lists of blocks are run one after another against the same scene, until the target
has been eaten. There is no program around them: nothing is reset, and neither the beginning nor the
end is reported.

## What is here

* `Rehearsal` — the scene as it is, the time, and whether the target has been eaten.
* `Rehearsal.perform` — one more list of blocks is run.
-/

set_option autoImplicit false
namespace BlockScript

/-- A scene against which lists of blocks are run. -/
structure Rehearsal (σ : Type) where
  /-- The state of the scene. -/
  state : σ
  /-- The time since the beginning, in milliseconds. -/
  clock : Nat := 0
  /-- Whether the target has been eaten. -/
  succeeded : Bool := false

namespace Rehearsal

/-- How a run would end that ended now. -/
def outcome {σ : Type} (rehearsal : Rehearsal σ) : Outcome :=
  if rehearsal.succeeded then .succeeded else .exhausted

/-- Runs a list of blocks. Gives what happens and when, and the rehearsal as it is then. -/
def perform {σ : Type} (scene : Scene σ) (pacing : Pacing) (rehearsal : Rehearsal σ)
    (blocks : List Block) : Timeline × Rehearsal σ :=
  let (effects, succeeded, state) :=
    Block.runAll scene pacing blocks rehearsal.succeeded rehearsal.state
  (Effect.timeline rehearsal.clock effects,
    { state, clock := rehearsal.clock + Effect.totalDuration effects, succeeded })

end Rehearsal
end BlockScript
