import BlockScript.EventLog
import Mathlib.Data.List.Basic

/-!
# What a channel still has

A channel forgets all but the newest of the events that were sent to it, and a receiver is told how
many it has lost.  This file relates the ring to the list of everything that was sent, of which the
channel itself knows only the length, and says what a receiver gets by this list alone.

## What is here

* `Receipt.ofUnread` — what a receiver gets that has not read some events, the oldest of which may
  be lost; `Receipt.Account` — receipts that account for events, one by one or as lost.
* `Channel.Sent` — all that was sent to a channel; `Channel.Sent.send` is what sending adds to it.
* `Channel.Sent.receive?_of_lagging`, `receive?_of_kept` and `receive?_of_read` — what a receiver
  gets next; `Channel.Sent.drain_eq` — all that it gets.
-/

set_option autoImplicit false
namespace BlockScript

/-! ## Receipts -/

namespace Receipt

/-- What a receiver gets when it reads all that it has not read: the number of lost events if there
are more than the channel keeps, and then those that are kept. -/
def ofUnread (unread : List Event) : List Receipt :=
  (if Channel.capacity < unread.length then [.lagged (unread.length - Channel.capacity)] else [])
    ++ (unread.drop (unread.length - Channel.capacity)).map Receipt.event

/-- Receipts account for events if every event was received or is among those that were reported as
lost where it should have come. -/
inductive Account : List Receipt → List Event → Prop where
  | nil : Account [] []
  | event (event : Event) {receipts : List Receipt} {events : List Event}
      (h : Account receipts events) : Account (.event event :: receipts) (event :: events)
  | lagged (lost : List Event) {n : Nat} (hlost : lost.length = n) {receipts : List Receipt}
      {events : List Event} (h : Account receipts events) :
      Account (.lagged n :: receipts) (lost ++ events)

theorem Account.append {receipts more : List Receipt} {events after : List Event}
    (h : Account receipts events) (hmore : Account more after) :
    Account (receipts ++ more) (events ++ after) := by
  induction h with
  | nil => exact hmore
  | event event h ih => exact .event event ih
  | lagged lost hlost h ih =>
    rw [List.cons_append, List.append_assoc]
    exact .lagged lost hlost ih

theorem account_map_event : ∀ events : List Event, Account (events.map Receipt.event) events
  | [] => .nil
  | first :: rest => .event first (account_map_event rest)

/-- What a receiver gets accounts for all that it has not read. -/
theorem account_ofUnread (unread : List Event) : Account (ofUnread unread) unread := by
  have hkept := account_map_event (unread.drop (unread.length - Channel.capacity))
  rw [ofUnread]
  split
  case isTrue hlag =>
    have hlost : (unread.take (unread.length - Channel.capacity)).length
        = unread.length - Channel.capacity := List.length_take_of_le (Nat.sub_le _ _)
    have hall := hkept.lagged _ hlost
    rwa [List.take_append_drop] at hall
  case isFalse hkeeps =>
    rw [Nat.sub_eq_zero_of_le (Nat.not_lt.1 hkeeps), List.drop_zero] at hkept ⊢
    exact hkept

end Receipt

namespace Channel

/-! ## What was sent -/

/-- All that was sent to a channel, the oldest first.  The newest of it stands in the ring, each
event in its slot. -/
structure Sent (channel : Channel) (events : List Event) : Prop where
  count : channel.sent = events.length
  size : channel.slots.size = min events.length capacity
  slot : ∀ n event, events[n]? = some event → events.length ≤ n + capacity →
    channel.slots[n % capacity]? = some event

theorem capacity_pos : 0 < capacity := by decide

theorem sent_empty : Sent {} [] where
  count := rfl
  size := rfl
  slot n event h := by simp at h

variable {channel : Channel} {events : List Event} {next : Nat}

/-- The newest events have slots of their own: two that share one are as far apart as the ring is
long. -/
theorem mod_ne_mod {n last : Nat} (hlt : n < last) (hkept : last < n + capacity) :
    n % capacity ≠ last % capacity := by
  rw [capacity] at *
  omega

/-- An event that is sent takes the slot of the one that is as old as the ring is long. -/
theorem Sent.send (h : channel.Sent events) (event : Event) :
    (channel.send event).Sent (events ++ [event]) := by
  obtain ⟨hcount, hsize, hslot⟩ := h
  have hlength : (events ++ [event]).length = events.length + 1 := List.length_append
  constructor
  · rw [hlength, Channel.send, hcount]
  · rw [hlength, Channel.send]
    split
    · rw [Array.size_push]
      omega
    · rw [Array.size_setIfInBounds]
      omega
  · intro n other hn hkept
    rw [hlength] at hkept
    rw [Channel.send]
    rcases Nat.lt_or_ge n events.length with hlt | hge
    · have hold := hslot n other ((List.getElem?_append_left hlt).symm.trans hn) (by omega)
      split
      · have hslot : n % capacity < channel.slots.size := (Array.getElem?_eq_some_iff.1 hold).1
        rw [Array.getElem?_push, if_neg (Nat.ne_of_lt hslot), hold]
      · rw [hcount, Array.getElem?_setIfInBounds_ne (mod_ne_mod hlt (by omega)).symm, hold]
    · obtain rfl : n = events.length := by
        have hin := (List.getElem?_eq_some_iff.1 hn).1
        omega
      obtain rfl : event = other := by simpa using hn
      split
      · rename_i hroom
        rw [hsize] at hroom
        have hslot : events.length % capacity = channel.slots.size := by
          rw [Nat.mod_eq_of_lt] <;> omega
        rw [Array.getElem?_push, if_pos hslot]
      · rw [hcount, Array.getElem?_setIfInBounds_self_of_lt]
        have := Nat.mod_lt events.length capacity_pos
        omega

/-! ## What is received -/

/-- A receiver that has missed too many events is told how many are lost and goes on with the oldest
one that is kept. -/
theorem Sent.receive?_of_lagging (h : channel.Sent events)
    (hlag : next + capacity < events.length) :
    channel.receive? ⟨next⟩
      = some (.lagged (events.length - capacity - next), ⟨events.length - capacity⟩) := by
  simp only [receive?, h.count]
  rw [if_pos hlag]

/-- Otherwise a receiver gets the event that comes next. -/
theorem Sent.receive?_of_kept (h : channel.Sent events) (hkept : events.length ≤ next + capacity)
    {event : Event} (hnext : events[next]? = some event) :
    channel.receive? ⟨next⟩ = some (.event event, ⟨next + 1⟩) := by
  have hlt : next < events.length := (List.getElem?_eq_some_iff.1 hnext).1
  simp only [receive?, h.count]
  rw [if_neg (Nat.not_lt.2 hkept), if_pos hlt, h.slot next event hnext hkept, Option.map_some]

/-- A receiver that has read everything gets nothing. -/
theorem Sent.receive?_of_read (h : channel.Sent events) (hread : events.length ≤ next) :
    channel.receive? ⟨next⟩ = none := by
  simp only [receive?, h.count]
  rw [if_neg (by omega), if_neg (Nat.not_lt.2 hread)]

theorem drainFrom_of_eq_none {receiver : Receiver} (h : channel.receive? receiver = none)
    (receipts : Array Receipt) : channel.drainFrom receipts receiver = (receipts, receiver) := by
  rw [drainFrom]
  split
  · rfl
  · next heq => simp [h] at heq

theorem drainFrom_of_eq_some {receiver receiver' : Receiver} {receipt : Receipt}
    (h : channel.receive? receiver = some (receipt, receiver')) (receipts : Array Receipt) :
    channel.drainFrom receipts receiver
      = channel.drainFrom (receipts.push receipt) receiver' := by
  rw [drainFrom]
  split
  · next heq => simp [h] at heq
  · next heq =>
    obtain ⟨rfl, rfl⟩ := Prod.mk.inj (Option.some.inj (h.symm.trans heq))
    rfl

/-- A receiver that has lost nothing gets the events one by one. -/
theorem Sent.drainFrom_of_kept (h : channel.Sent events) (receipts : Array Receipt)
    (hle : next ≤ events.length) (hkept : events.length ≤ next + capacity) :
    channel.drainFrom receipts ⟨next⟩
      = (receipts ++ (events.drop next).map Receipt.event, ⟨events.length⟩) := by
  induction hleft : events.length - next generalizing next receipts with
  | zero =>
    obtain rfl : next = events.length := by omega
    rw [drainFrom_of_eq_none (h.receive?_of_read (Nat.le_refl _))]
    simp
  | succ left ih =>
    have hlt : next < events.length := by omega
    have hpush (first : Receipt) (rest : List Receipt) :
        receipts.push first ++ rest = receipts ++ first :: rest := Array.toList_inj.1 (by simp)
    rw [drainFrom_of_eq_some (h.receive?_of_kept hkept (List.getElem?_eq_getElem hlt)),
      ih _ hlt (by omega) (by omega), List.drop_eq_getElem_cons hlt, List.map_cons, hpush]

/-- **A receiver that drains the channel gets what it has not read**, as far as that is kept. -/
theorem Sent.drain_eq (h : channel.Sent events) (hle : next ≤ events.length) :
    channel.drain ⟨next⟩ = (Receipt.ofUnread (events.drop next), ⟨events.length⟩) := by
  rw [drain, Receipt.ofUnread, List.length_drop, List.drop_drop]
  by_cases hlag : next + capacity < events.length
  · have holdest : next + (events.length - next - capacity) = events.length - capacity := by omega
    rw [drainFrom_of_eq_some (h.receive?_of_lagging hlag),
      h.drainFrom_of_kept _ (Nat.sub_le _ _) (by omega), if_pos (by omega), holdest,
      Nat.sub_right_comm]
    simp
  · rw [h.drainFrom_of_kept _ hle (by omega), if_neg (by omega),
      Nat.sub_eq_zero_of_le (by omega)]
    simp

end Channel

theorem Channel.Sent.pushAll {log : EventLog} {sent : List Event} (h : log.live.Sent sent)
    (events : List Event) : (log.pushAll events).live.Sent (sent ++ events) := by
  induction events generalizing log sent with
  | nil => rwa [List.append_nil]
  | cons event events ih =>
    have hrest : ((log.push event).pushAll events).live.Sent (sent ++ [event] ++ events) :=
      ih (h.send event)
    rwa [List.append_assoc] at hrest

end BlockScript
