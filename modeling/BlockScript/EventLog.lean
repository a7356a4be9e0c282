import BlockScript.EventLog.Channel

/-!
# The event log

Every event of a run is recorded and sent to the live channel. Clearing the log forgets what was
recorded and does not touch the channel.

## What is here

* `EventLog` with `push`, `pushAll`, `clear`, `snapshot` and `messages`.
-/

set_option autoImplicit false
namespace BlockScript

/-- The recorded events and the live channel. -/
structure EventLog where
  /-- The recorded events, the oldest first. -/
  entries : Array Event := #[]
  live : Channel := {}

namespace EventLog

/-- Records an event and sends it. -/
def push (log : EventLog) (event : Event) : EventLog :=
  { entries := log.entries.push event, live := log.live.send event }

/-- Records and sends some events in order. -/
def pushAll (log : EventLog) (events : List Event) : EventLog := events.foldl push log

/-- Forgets the recorded events. -/
def clear (log : EventLog) : EventLog := { log with entries := #[] }

/-- The recorded events, the oldest first. -/
def snapshot (log : EventLog) : List Event := log.entries.toList

/-- The number of recorded events. -/
def size (log : EventLog) : Nat := log.entries.size

/-- Whether nothing is recorded. -/
def isEmpty (log : EventLog) : Bool := log.entries.isEmpty

/-- The lines that are shown for the recorded events. -/
def messages (log : EventLog) : List String := log.snapshot.map Event.message

@[simp] theorem snapshot_push (log : EventLog) (event : Event) :
    (log.push event).snapshot = log.snapshot ++ [event] := by
  simp [snapshot, push]

@[simp] theorem snapshot_clear (log : EventLog) : log.clear.snapshot = [] := rfl

@[simp] theorem snapshot_pushAll (log : EventLog) (events : List Event) :
    (log.pushAll events).snapshot = log.snapshot ++ events := by
  induction events generalizing log with
  | nil => simp [pushAll]
  | cons event events ih =>
    have := ih (log.push event)
    simp only [pushAll] at this
    simp [pushAll, this]

end EventLog
end BlockScript
