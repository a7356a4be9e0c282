import BlockScript.Json.Printer
import BlockScript.Json.Tagged
import BlockScript.Run.Event

/-!
# Events in documents

## What is here

* `Outcome` and `Event` as values, and `Event.decoder`, which reads an event.
-/

set_option autoImplicit false
namespace BlockScript

open Json

/-- The outcomes with their names. -/
def Outcome.variants : List (String × Outcome) :=
  [("succeeded", .succeeded), ("exhausted", .exhausted)]

/-- The name of an outcome. -/
def Outcome.name : Outcome → String
  | .succeeded => "succeeded"
  | .exhausted => "exhausted"

namespace Event

/-- An event as a value. -/
def toValue : Event → Value
  | .started => .object [("event", .string "started")]
  | .repetition iteration count =>
    .object [("event", .string "repetition"), ("iteration", .integer iteration),
      ("count", .integer count)]
  | .nearTarget distance =>
    .object [("event", .string "near_target"), ("distance", .float distance)]
  | .tooFar distance => .object [("event", .string "too_far"), ("distance", .float distance)]
  | .targetEaten => .object [("event", .string "target_eaten")]
  | .missingEntryPoint => .object [("event", .string "missing_entry_point")]
  | .finished outcome =>
    .object [("event", .string "finished"), ("outcome", .string outcome.name)]

/-- The kinds of events. -/
inductive Kind where
  | started
  | repetition
  | nearTarget
  | tooFar
  | targetEaten
  | missingEntryPoint
  | finished
  deriving DecidableEq

/-- The kinds with their names. -/
def Kind.variants : List (String × Kind) :=
  [("started", .started), ("repetition", .repetition), ("near_target", .nearTarget),
    ("too_far", .tooFar), ("target_eaten", .targetEaten),
    ("missing_entry_point", .missingEntryPoint), ("finished", .finished)]

/-- The parts of a repetition, as far as they have been read. -/
structure RepetitionDraft where
  iteration : Option Nat := none
  count : Option Nat := none

/-- The largest number of an iteration: the largest number of 32 bits. -/
def maxIteration : Nat := 4294967295

/-- What belongs to a repetition. -/
def repetitionParts : Parts RepetitionDraft Value Event where
  name := "struct variant RunEvent::Repetition"
  parts :=
    [.kept "iteration" RepetitionDraft.iteration
        (fun draft n => { draft with iteration := some n }) (Value.toNat "u32" maxIteration),
      .kept "count" RepetitionDraft.count
        (fun draft n => { draft with count := some n }) (Value.toNat "u32" maxIteration)]
  blank := {}
  build draft :=
    match draft.iteration, draft.count with
    | some iteration, some count => .ok (.repetition iteration count)
    | none, _ => .error "iteration"
    | _, none => .error "count"

/-- What belongs to an event with a distance. -/
def distanceParts (name : String) (event : Float → Event) : Parts (Option Float) Value Event where
  name := "struct variant RunEvent::" ++ name
  parts := [.kept "distance" id (fun _ distance => some distance) Value.toFloat]
  blank := none
  build
    | some distance => .ok (event distance)
    | none => .error "distance"

/-- What belongs to the end of a run. -/
def finishedParts : Parts (Option Outcome) Value Event where
  name := "struct variant RunEvent::Finished"
  parts := [.kept "outcome" id (fun _ outcome => some outcome) (Value.toChoice Outcome.variants)]
  blank := none
  build
    | some outcome => .ok (.finished outcome)
    | none => .error "outcome"

/-- The event of a kind with the given content. -/
def ofContent (kind : Kind) (content : Content Value) : Except Cause Event :=
  match kind with
  | .started => content.nothing .started
  | .repetition => repetitionParts.read content
  | .nearTarget => (distanceParts "NearTarget" .nearTarget).read content
  | .tooFar => (distanceParts "TooFar" .tooFar).read content
  | .targetEaten => content.nothing .targetEaten
  | .missingEntryPoint => content.nothing .missingEntryPoint
  | .finished => finishedParts.read content

/-- Reads an event. -/
def decoder : Decoder Event := .ofTagged "RunEvent" "event" Kind.variants ofContent

end Event
end BlockScript
