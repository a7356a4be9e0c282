/-!
# Events of a run

## What is here

* `Outcome` — how a run ends.
* `Event` — what a run reports, with `Event.message`, the line that is shown for it.
* `Event.isTerminal` — whether an event is the last of its run.
-/

set_option autoImplicit false
namespace BlockScript

/-- How a run ends. -/
inductive Outcome where
  /-- The actor has eaten the target. -/
  | succeeded
  /-- Every block was run and the target is still there. -/
  | exhausted
  deriving DecidableEq, Repr, Inhabited

/-- What a run reports. -/
inductive Event where
  /-- The entry points begin to run. -/
  | started
  /-- A loop begins an iteration, counted from one. -/
  | repetition (iteration count : Nat)
  /-- A move has ended close to the target. -/
  | nearTarget (distance : Float)
  /-- The target was out of reach for an attempt to eat it. -/
  | tooFar (distance : Float)
  /-- The target has been eaten. -/
  | targetEaten
  /-- The program has no start block. -/
  | missingEntryPoint
  /-- The run is over. -/
  | finished (outcome : Outcome)
  deriving DecidableEq

/-- The line that is shown for an event. -/
def Event.message : Event → String
  | .started => "Running program..."
  | .repetition iteration count =>
    "Repetition " ++ toString iteration ++ " of " ++ toString count
  | .nearTarget _ => "The cat is near the food!"
  | .tooFar _ => "The food is too far away. Keep trying!"
  | .targetEaten => "Success! The cat ate the food"
  | .missingEntryPoint => "You need a \"when run starts\" block!"
  | .finished .succeeded => "Program finished. The cat ate the food!"
  | .finished .exhausted => "Program finished. The cat did not reach the food!"

/-- Whether an event is the last one of its run. -/
def Event.isTerminal : Event → Bool
  | .finished _ => true
  | .missingEntryPoint => true
  | _ => false

end BlockScript
