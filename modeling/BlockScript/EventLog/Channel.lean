import BlockScript.Run.Event

/-!
# The live channel

Events are sent to any number of receivers. The channel keeps only the newest of them in a ring,
so a receiver that reads too seldom loses the oldest ones and is told how many.

## What is here

* `Channel` — the ring and the number of events sent so far; `Channel.send` adds one.
* `Receiver` — how far one receiver has read.
* `Channel.receive?` and `Channel.drain` — what a receiver gets next, and all it can get now.
-/

set_option autoImplicit false
namespace BlockScript

/-- The number of events that the channel keeps. -/
def Channel.capacity : Nat := 256

/-- The newest events. Event number `i`, counted from zero, stands in slot `i % capacity`. -/
structure Channel where
  slots : Array Event := #[]
  /-- How many events have been sent. -/
  sent : Nat := 0

/-- A receiver, by the number of the event that it reads next. -/
structure Receiver where
  next : Nat
  deriving DecidableEq, Repr, Inhabited

/-- What a receiver gets. -/
inductive Receipt where
  | event (event : Event)
  /-- So many events were lost. -/
  | lagged (lost : Nat)
  deriving DecidableEq

namespace Channel

/-- Sends an event; the oldest one is dropped from a full ring. -/
def send (channel : Channel) (event : Event) : Channel :=
  { slots :=
      if channel.slots.size < capacity then channel.slots.push event
      else channel.slots.setIfInBounds (channel.sent % capacity) event
    sent := channel.sent + 1 }

/-- A receiver of the events sent from now on. -/
def subscribe (channel : Channel) : Receiver := ⟨channel.sent⟩

/-- What a receiver gets next, if anything: first the number of the events it has lost, then the
events that are kept. -/
def receive? (channel : Channel) (receiver : Receiver) : Option (Receipt × Receiver) :=
  if receiver.next + capacity < channel.sent then
    let oldest := channel.sent - capacity
    some (.lagged (oldest - receiver.next), ⟨oldest⟩)
  else if receiver.next < channel.sent then
    channel.slots[receiver.next % capacity]?.map fun event => (.event event, ⟨receiver.next + 1⟩)
  else none

theorem next_receive? {channel : Channel} {receiver receiver' : Receiver} {receipt : Receipt}
    (h : channel.receive? receiver = some (receipt, receiver')) :
    channel.sent - receiver'.next < channel.sent - receiver.next := by
  unfold receive? at h
  split at h
  · simp only [Option.some.injEq, Prod.mk.injEq] at h
    obtain ⟨-, rfl⟩ := h
    simp only
    have : 0 < capacity := by decide
    omega
  · split at h
    · simp only [Option.map_eq_some_iff, Prod.mk.injEq] at h
      obtain ⟨event, -, -, rfl⟩ := h
      simp only
      omega
    · simp at h

/-- All that a receiver gets now, after what it has got already. -/
def drainFrom (channel : Channel) (receipts : Array Receipt) (receiver : Receiver) :
    Array Receipt × Receiver :=
  match _h : channel.receive? receiver with
  | none => (receipts, receiver)
  | some (receipt, receiver) => drainFrom channel (receipts.push receipt) receiver
termination_by channel.sent - receiver.next
decreasing_by exact next_receive? (by assumption)

/-- All that a receiver gets now. -/
def drain (channel : Channel) (receiver : Receiver) : List Receipt × Receiver :=
  let (receipts, receiver) := channel.drainFrom #[] receiver
  (receipts.toList, receiver)

end Channel
end BlockScript
