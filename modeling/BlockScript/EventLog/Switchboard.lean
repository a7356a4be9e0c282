import BlockScript.EventLog

/-!
# Handles on event logs

A log can be held by any number of handles, which all see the same events, and can be followed by
any number of receivers.

## What is here

* `Switchboard` — the logs, the handles on them and the receivers that follow them.
* `Switchboard.Op` and `Switchboard.step` — what can be done with a handle or a receiver, and what
  it answers.
-/

set_option autoImplicit false
namespace BlockScript

/-- Logs with the handles and receivers connected to them. -/
structure Switchboard where
  logs : Array EventLog
  /-- The number of the log that each handle holds. -/
  handles : Array Nat
  /-- The number of the log that each receiver follows, and how far it has read. -/
  receivers : Array (Nat × Receiver)

namespace Switchboard

/-- One handle on an empty log. -/
def start : Switchboard := { logs := #[{}], handles := #[0], receivers := #[] }

/-- What can be done with a handle or a receiver. -/
inductive Op where
  /-- Pushes an event some number of times. -/
  | push (handle : Nat) (event : Event) (times : Nat)
  | clear (handle : Nat)
  /-- Makes another handle on the same log. -/
  | clone (handle : Nat)
  /-- Makes a handle on a log of its own. -/
  | openLog
  | snapshot (handle : Nat)
  | messages (handle : Nat)
  | size (handle : Nat)
  | isEmpty (handle : Nat)
  | subscribe (handle : Nat)
  | drain (receiver : Nat)
  deriving DecidableEq

/-- What an operation answers. -/
inductive Answer where
  | number (n : Nat)
  | truth (b : Bool)
  | events (events : List Event)
  | lines (lines : List String)
  | receipts (receipts : List Receipt)

/-- What cannot be done. -/
inductive Misuse where
  | noSuchHandle
  | noSuchReceiver
  deriving DecidableEq

/-- The number and the state of the log that a handle holds. -/
def logOf (board : Switchboard) (handle : Nat) : Except Misuse (Nat × EventLog) :=
  match board.handles[handle]? with
  | none => .error .noSuchHandle
  | some number => .ok (number, board.logs[number]?.getD {})

/-- The switchboard with another state of a log. -/
def setLog (board : Switchboard) (number : Nat) (log : EventLog) : Switchboard :=
  { board with logs := board.logs.setIfInBounds number log }

/-- Does an operation. -/
def step (board : Switchboard) : Op → Except Misuse (Switchboard × Answer)
  | .push handle event times => do
    let (number, log) ← board.logOf handle
    let log := log.pushAll (List.replicate times event)
    .ok (board.setLog number log, .number log.size)
  | .clear handle => do
    let (number, log) ← board.logOf handle
    .ok (board.setLog number log.clear, .number 0)
  | .clone handle => do
    let (number, _) ← board.logOf handle
    .ok ({ board with handles := board.handles.push number }, .number board.handles.size)
  | .openLog =>
    .ok ({ board with
      logs := board.logs.push {}
      handles := board.handles.push board.logs.size }, .number board.handles.size)
  | .snapshot handle => do
    let (_, log) ← board.logOf handle
    .ok (board, .events log.snapshot)
  | .messages handle => do
    let (_, log) ← board.logOf handle
    .ok (board, .lines log.messages)
  | .size handle => do
    let (_, log) ← board.logOf handle
    .ok (board, .number log.size)
  | .isEmpty handle => do
    let (_, log) ← board.logOf handle
    .ok (board, .truth log.isEmpty)
  | .subscribe handle => do
    let (number, log) ← board.logOf handle
    .ok ({ board with receivers := board.receivers.push (number, log.live.subscribe) },
      .number board.receivers.size)
  | .drain receiver =>
    match board.receivers[receiver]? with
    | none => .error .noSuchReceiver
    | some (number, reader) =>
      let live := (board.logs[number]?.getD {}).live
      let (receipts, reader) := live.drain reader
      .ok ({ board with receivers := board.receivers.setIfInBounds receiver (number, reader) },
        .receipts receipts)

end Switchboard
end BlockScript
