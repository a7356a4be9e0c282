import BlockScript.Run.Walk

/-!
# Runs in time

Time stands still while a run does anything, and every rest takes as long as it says.

## What is here

* `Effect.duration` — how long an effect takes; `Effect.totalDuration` — how long some take.
* `Effect.timeline` — effects with the times at which they happen.
* `Timeline.calls` and `Timeline.events` — the uses of the scene and the events among them.
-/

set_option autoImplicit false
namespace BlockScript

/-! ## Durations -/

namespace Effect

/-- How long an effect takes. -/
def duration : Effect → Nat
  | .rest n => n
  | _ => 0

/-- How long some effects take one after another. -/
def totalDuration : List Effect → Nat
  | [] => 0
  | effect :: effects => effect.duration + totalDuration effects

theorem totalDuration_append (effects more : List Effect) :
    totalDuration (effects ++ more) = totalDuration effects + totalDuration more := by
  induction effects with
  | nil => simp [totalDuration]
  | cons effect effects ih => simp [totalDuration, ih, Nat.add_assoc]

/-- The use of the scene that an effect is. -/
def call? : Effect → Option Scene.Call
  | .call use => some use
  | _ => none

/-- The event that an effect reports. -/
def event? : Effect → Option Event
  | .emit report => some report
  | _ => none

/-- Effects with the times at which they happen, if the first one happens at a given time. -/
def timeline (now : Nat) : List Effect → List (Nat × Effect)
  | [] => []
  | effect :: effects => (now, effect) :: timeline (now + effect.duration) effects

@[simp] theorem map_snd_timeline (now : Nat) (effects : List Effect) :
    (timeline now effects).map Prod.snd = effects := by
  induction effects generalizing now with
  | nil => rfl
  | cons effect effects ih => simp [timeline, ih]

theorem timeline_append (now : Nat) (effects more : List Effect) :
    timeline now (effects ++ more)
      = timeline now effects ++ timeline (now + totalDuration effects) more := by
  induction effects generalizing now with
  | nil => simp [timeline, totalDuration]
  | cons effect effects ih => simp [timeline, totalDuration, ih, Nat.add_assoc]

end Effect

/-! ## Timelines -/

/-- Effects with the times at which they happen. -/
abbrev Timeline := List (Nat × Effect)

namespace Timeline

/-- The uses of the scene, with their times. -/
def calls (timeline : Timeline) : List (Nat × Scene.Call) :=
  timeline.filterMap fun (time, effect) => effect.call?.map (time, ·)

/-- The events in order. -/
def events (timeline : Timeline) : List Event := timeline.filterMap (·.2.event?)

end Timeline
end BlockScript
