import BlockScript.EventLog.Channel

/-!
# Showing events

The events of a run are shown as they come in from the live channel, one line each, up to the last
event of the run. Events that were lost are not shown.

## What is here

* `Tool.Display` — the lines shown so far; `Display.take` deals with one receipt, and
  `Display.receive` with the next one on the channel, if there is one.
-/

set_option autoImplicit false
namespace BlockScript.Tool

/-- Events being shown. -/
structure Display where
  receiver : Receiver
  /-- The lines shown so far. -/
  lines : Array String := #[]
  /-- The number of events that were lost. -/
  lost : Nat := 0
  /-- Whether the last event of the run has been shown. -/
  ended : Bool := false

namespace Display

/-- A display of the events that are sent from now on. -/
def follow (live : Channel) : Display := { receiver := live.subscribe }

/-- Deals with a receipt. -/
def take (display : Display) : Receipt → Display
  | .event event =>
    { display with lines := display.lines.push event.message, ended := event.isTerminal }
  | .lagged lost => { display with lost := display.lost + lost }

/-- Deals with the next receipt, if there is one and the run has not ended. -/
def receive (live : Channel) (display : Display) : Display :=
  if display.ended then display
  else
    match live.receive? display.receiver with
    | none => display
    | some (receipt, receiver) => { display with receiver }.take receipt

end Display
end BlockScript.Tool
