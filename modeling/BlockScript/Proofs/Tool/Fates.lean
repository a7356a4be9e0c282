import BlockScript.Proofs.EventLog.Ring
import BlockScript.Proofs.Run.Suspension
import BlockScript.Tool.Report

/-!
# What becomes of the events of a run

The task that runs a program and the loop that shows its events take turns in any order: an event
may be pushed while the loop is far behind, and the channel may have dropped events by the time the
loop comes to them.  This file keeps account of what the loop shows and loses.

## What is here

* `Event.announced?` — the outcome that the last event of a run announces; `Program.ends_result`
  says that the last event of a run announces its outcome, and that no event before it is like it.
* `Tool.Watch` — the task, the log and the loop, with their turns in any order.
* `Watch.Told` — what has become of the events so far; `Told.receive` is what a turn of the loop
  adds to it.
* `Told.endsWith_shown` — a loop that has ended has shown the last event of the run.
-/

set_option autoImplicit false
namespace BlockScript

/-! ## The last event of a run -/

/-- The outcome that the last event of a run announces. -/
def Event.announced? : Event → Option Outcome
  | .finished outcome => some outcome
  | .missingEntryPoint => some .exhausted
  | _ => none

/-- Events that end with the one that announces an outcome, the first that is the last of a run. -/
def EndsWith (events : List Event) (outcome : Outcome) : Prop :=
  ∃ before terminal, events = before ++ [terminal] ∧ terminal.announced? = some outcome ∧
    terminal.isTerminal = true ∧ ∀ event ∈ before, event.isTerminal = false

namespace Program

variable {σ : Type} (scene : Scene σ) (pacing : Pacing)

/-- **The last event of a run announces its outcome**, and none before it is the last of a run. -/
theorem ends_result (program : Program) (start : σ) :
    EndsWith (program.result scene pacing start).events
      (program.result scene pacing start).outcome := by
  by_cases h : program.entryPoints = []
  · have hsucceeded : (program.performance scene pacing start).succeeded = false := by
      simp [performance, Execution.start, Execution.meaning, h, Walk.meaning, Frame.meaningAll,
        Course.inTurn, Course.idle]
    refine ⟨[], .missingEntryPoint, events_of_entryPoints_eq_nil scene pacing start h, ?_, rfl,
      by simp⟩
    rw [result, hsucceeded]
    rfl
  · obtain ⟨middle, outcome, hevents, hmiddle⟩ :=
      events_of_entryPoints_ne_nil scene pacing start h
    have houtcome : outcome = (program.result scene pacing start).outcome := by
      have hlength : program.entryPoints.length ≠ 0 := by simpa using h
      rw [performance, Execution.meaning, if_neg (by exact hlength), Effect.events_append,
        ← List.cons_append] at hevents
      have hlast := (List.append_inj' hevents rfl).2
      exact (Event.finished.inj (List.singleton_inj.1 hlast)).symm
    refine ⟨.started :: middle, .finished outcome, hevents, congrArg some houtcome, rfl, ?_⟩
    rintro event (_ | ⟨_, hevent⟩)
    · rfl
    · exact Event.isTerminal_of_isIncidental (hmiddle event hevent)

end Program

namespace Tool

/-! ## The task and the loop -/

/-- The result of a run on the stage of a geometry. -/
abbrev result (geometry : Geometry Float) (pacing : Pacing) (program : Program) : RunResult :=
  program.result geometry.scene pacing (StageState.initial geometry)

/-- A run and the display of its events. -/
structure Watch where
  /-- The stage as the task has left it. -/
  stage : StageState Float
  /-- Where the task has stopped. -/
  stop : Stop
  /-- What the task has still to push before it goes on. -/
  pending : List Event
  log : EventLog
  display : Display

namespace Watch

/-- The task has not begun, and the display follows the log already. -/
def start (geometry : Geometry Float) (program : Program) : Watch where
  stage := StageState.initial geometry
  stop := .resting 0 (Execution.start program)
  pending := []
  log := {}
  display := Display.follow {}

/-- The task pushes the next event, or goes on to its next rest or to its end. -/
def work (geometry : Geometry Float) (pacing : Pacing) (watch : Watch) : Watch :=
  match watch.pending, watch.stop with
  | event :: pending, _ => { watch with pending, log := watch.log.push event }
  | [], .resting _ execution =>
    let (effects, stage, stop) := execution.advance geometry.scene pacing #[] watch.stage
    { watch with stage, stop, pending := Effect.events effects.toList }
  | [], .finished _ => watch

/-- The loop receives what is next on the channel. -/
def receive (watch : Watch) : Watch :=
  { watch with display := watch.display.receive watch.log.live }

/-- Whose turn it is. -/
inductive Turn where
  | work
  | receive
  deriving DecidableEq

/-- Takes a turn. -/
def take (geometry : Geometry Float) (pacing : Pacing) (watch : Watch) : Turn → Watch
  | .work => watch.work geometry pacing
  | .receive => watch.receive

/-- Takes turns. -/
def takeAll (geometry : Geometry Float) (pacing : Pacing) (watch : Watch) (turns : List Turn) :
    Watch :=
  turns.foldl (take geometry pacing) watch

/-- The events that the loop is behind the task. -/
def behind (watch : Watch) : Nat := watch.log.live.sent - watch.display.receiver.next

/-- The events that the task has still to push. -/
def coming (geometry : Geometry Float) (pacing : Pacing) (watch : Watch) : List Event :=
  watch.pending
    ++ Effect.events (watch.stop.meaning geometry.scene pacing watch.stage).effects

/-! ## What becomes of the events -/

/-- The events that were shown. -/
def shown (fates : List (Event × Bool)) : List Event := (fates.filter Prod.snd).map Prod.fst

/-- The events so far and their fates: of what was sent, the loop has come to a beginning, and each
event there was shown, or lost and counted.  The last event of the run is not lost, and the loop
has ended if it has come to it. -/
structure Told (events : List Event) (watch : Watch) (sent : List Event)
    (fates : List (Event × Bool)) : Prop where
  live : watch.log.live.Sent sent
  known : sent <+: events
  told : fates.map Prod.fst = sent.take fates.length
  next : watch.display.receiver = ⟨fates.length⟩
  lines : watch.display.lines.toList = (shown fates).map Event.message
  lost : watch.display.lost = fates.countP fun fate => !fate.2
  kept : ∀ fate ∈ fates, fate.2 = false → fate.1.isTerminal = false
  ended : watch.display.ended = true ↔ fates.length = events.length

variable {events sent : List Event} {watch : Watch} {fates : List (Event × Bool)}
  {outcome : Outcome}

/-- An event among others that end with the last of a run is that one if it stands at the end. -/
theorem isTerminal_iff_of_endsWith (hends : EndsWith events outcome) {n : Nat} {event : Event}
    (hevent : events[n]? = some event) : event.isTerminal = true ↔ n + 1 = events.length := by
  obtain ⟨before, terminal, rfl, -, hterminal, hbefore⟩ := hends
  have hlt := (List.getElem?_eq_some_iff.1 hevent).1
  rw [List.length_append, List.length_singleton] at hlt ⊢
  rcases Nat.lt_or_ge n before.length with hold | hnew
  · rw [List.getElem?_append_left hold] at hevent
    rw [hbefore event (List.mem_of_getElem? hevent)]
    simp only [Bool.false_eq_true, false_iff]
    omega
  · obtain rfl : n = before.length := by omega
    obtain rfl : terminal = event := by simpa using hevent
    simp [hterminal]

/-- How many receives it takes until the loop has come to all that was sent, if nothing more is. -/
def due (sent : List Event) (fates : List (Event × Bool)) : Nat :=
  if fates.length + Channel.capacity < sent.length then Channel.capacity + 1
  else sent.length - fates.length

theorem due_of_kept (h : sent.length ≤ fates.length + Channel.capacity) :
    due sent fates = sent.length - fates.length := if_neg (Nat.not_lt.2 h)

theorem due_le : due sent fates ≤ Channel.capacity + 1 := by
  rw [due]
  split <;> omega

theorem receive_of_eq_some (hended : watch.display.ended = false) {receipt : Receipt}
    {receiver : Receiver}
    (h : watch.log.live.receive? watch.display.receiver = some (receipt, receiver)) :
    watch.receive
      = { watch with display := Display.take { watch.display with receiver } receipt } := by
  simp only [receive, Display.receive, hended, h, Bool.false_eq_true, if_false]

theorem receive_eq_self
    (h : watch.display.ended = true ∨ watch.log.live.receive? watch.display.receiver = none) :
    watch.receive = watch := by
  have hdisplay : watch.display.receive watch.log.live = watch.display := by
    rw [Display.receive]
    rcases h with h | h
    · rw [if_pos h]
    · simp only [h, ite_self]
  rw [receive, hdisplay]

namespace Told

theorem length_le (h : watch.Told events sent fates) : fates.length ≤ sent.length := by
  have hlength := congrArg List.length h.told
  rw [List.length_map, List.length_take] at hlength
  omega

/-- An event that was sent is the last of the run only if it stands at the end. -/
theorem isTerminal_iff (h : watch.Told events sent fates) (hends : EndsWith events outcome)
    {n : Nat} {event : Event} (hevent : sent[n]? = some event) :
    event.isTerminal = true ↔ n + 1 = events.length := by
  obtain ⟨hlt, rfl⟩ := List.getElem?_eq_some_iff.1 hevent
  exact isTerminal_iff_of_endsWith hends (List.prefix_iff_getElem?.1 h.known n hlt)

theorem prefix_events (h : watch.Told events sent fates) : fates.map Prod.fst <+: events :=
  h.told ▸ (List.take_prefix _ _).trans h.known

/-- A loop that has not ended has not shown the last event of the run. -/
theorem isTerminal_of_mem_shown (h : watch.Told events sent fates) (hends : EndsWith events outcome)
    (hended : watch.display.ended = false) {event : Event} (hevent : event ∈ shown fates) :
    event.isTerminal = false := by
  obtain ⟨fate, hfate, rfl⟩ := List.mem_map.1 hevent
  obtain ⟨i, hlt, rfl⟩ := List.mem_iff_getElem.1 (List.mem_of_mem_filter hfate)
  have hevent : events[i]? = some fates[i].1 := by
    have hi := List.prefix_iff_getElem?.1 h.prefix_events i (by rwa [List.length_map])
    rwa [List.getElem_map] at hi
  have hshort : fates.length ≠ events.length := fun hall => by simp [h.ended.2 hall] at hended
  have hle := h.prefix_events.length_le
  rw [List.length_map] at hle
  rw [← Bool.not_eq_true, isTerminal_iff_of_endsWith hends hevent]
  omega

/-- A loop that has ended has come to all events of the run. -/
theorem map_fst_eq (h : watch.Told events sent fates) (hended : watch.display.ended = true) :
    fates.map Prod.fst = events := by
  refine h.prefix_events.eq_of_length ?_
  rw [List.length_map, h.ended.1 hended]

theorem sent_eq (h : watch.Told events sent fates) (hended : watch.display.ended = true) :
    sent = events :=
  h.known.eq_of_length_le (h.ended.1 hended ▸ h.length_le)

/-- A loop that has ended has shown the last event of the run, and shown it last. -/
theorem endsWith_shown (h : watch.Told events sent fates) (hends : EndsWith events outcome)
    (hended : watch.display.ended = true) : EndsWith (shown fates) outcome := by
  obtain ⟨before, terminal, hevents, hannounced, hterminal, hbefore⟩ := hends
  obtain ⟨earlier, last, rfl, hearlier, hlast⟩ :=
    List.map_eq_append_iff.1 ((h.map_fst_eq hended).trans hevents)
  obtain ⟨fate, rfl, rfl⟩ := List.map_eq_singleton_iff.1 hlast
  have hkept : fate.2 = true := by
    by_contra hlost
    have hnot := h.kept fate (by simp) (by simpa using hlost)
    rw [hterminal] at hnot
    cases hnot
  refine ⟨shown earlier, fate.1, ?_, hannounced, hterminal, fun event hevent => ?_⟩
  · rw [shown, List.filter_append, List.filter_cons_of_pos hkept, List.map_append]
    rfl
  · obtain ⟨other, hother, rfl⟩ := List.mem_map.1 hevent
    exact hbefore _ (hearlier ▸ List.mem_map_of_mem (List.mem_of_mem_filter hother))

/-- A loop that is too far behind loses events, none of them the last of the run. -/
theorem receive_of_lagging (h : watch.Told events sent fates) (hends : EndsWith events outcome)
    (hended : watch.display.ended = false)
    (hlag : fates.length + Channel.capacity < sent.length) :
    watch.receive.Told events sent
      (fates ++ ((sent.take (sent.length - Channel.capacity)).drop fates.length).map
        fun event => (event, false)) := by
  have hreceive := receive_of_eq_some hended
    (by rw [h.next]; exact h.live.receive?_of_lagging hlag)
  rw [hreceive]
  have hcapacity := Channel.capacity_pos
  have hsent := h.known.length_le
  obtain ⟨oldest, holdest⟩ : ∃ oldest, sent.length - Channel.capacity = oldest := ⟨_, rfl⟩
  obtain ⟨missed, hmissed⟩ : ∃ missed, (sent.take oldest).drop fates.length = missed := ⟨_, rfl⟩
  have hlength : fates.length + missed.length = oldest := by
    rw [← hmissed, List.length_drop, List.length_take_of_le (by omega)]
    omega
  have hbefore : oldest < events.length := by omega
  rw [holdest, hmissed]
  clear hlag hreceive hcapacity holdest
  refine {
    live := h.live
    known := h.known
    told := ?told
    next := ?next
    lines := ?lines
    lost := ?lost
    kept := ?kept
    ended := ?ended }
  case told =>
    have htake : sent.take fates.length = (sent.take oldest).take fates.length := by
      rw [List.take_take, Nat.min_eq_left (by omega)]
    rw [List.map_append, List.map_map, List.length_append, List.length_map, hlength, h.told, htake,
      ← hmissed]
    exact (congrArg _ (List.map_id' _)).trans (List.take_append_drop _ _)
  case next =>
    rw [List.length_append, List.length_map, hlength]
    rfl
  case lines =>
    have hnone : (missed.map fun event => (event, false)).filter Prod.snd = [] := by simp
    rw [shown, List.filter_append, hnone, List.append_nil]
    exact h.lines
  case lost =>
    have hall : (missed.map fun event => (event, false)).countP (fun fate => !fate.2)
        = missed.length := by simp
    rw [List.countP_append, hall, ← h.lost, Display.take]
    simp only
    omega
  case kept =>
    intro fate hfate hlost
    rcases List.mem_append.1 hfate with hold | hnew
    · exact h.kept fate hold hlost
    · obtain ⟨event, hevent, rfl⟩ := List.mem_map.1 hnew
      obtain ⟨i, hi⟩ := List.mem_iff_getElem?.1 hevent
      have hlt := (List.getElem?_eq_some_iff.1 hi).1
      rw [← hmissed, List.getElem?_drop, List.getElem?_take_of_lt (by omega)] at hi
      rw [← Bool.not_eq_true, h.isTerminal_iff hends hi]
      omega
  case ended =>
    rw [List.length_append, List.length_map, hlength]
    simp only [Display.take, hended, Bool.false_eq_true, false_iff]
    omega

/-- Otherwise it shows the next event. -/
theorem receive_of_kept (h : watch.Told events sent fates) (hends : EndsWith events outcome)
    (hended : watch.display.ended = false)
    (hkept : sent.length ≤ fates.length + Channel.capacity) {event : Event}
    (hnext : sent[fates.length]? = some event) :
    watch.receive.Told events sent (fates ++ [(event, true)]) := by
  have hreceive := receive_of_eq_some hended
    (by rw [h.next]; exact h.live.receive?_of_kept hkept hnext)
  rw [hreceive]
  refine {
    live := h.live
    known := h.known
    told := ?told
    next := ?next
    lines := ?lines
    lost := ?lost
    kept := ?kept
    ended := ?ended }
  case told =>
    rw [List.map_append, List.length_append, h.told, List.length_singleton, List.take_add_one,
      hnext]
    rfl
  case next => rw [List.length_append]; rfl
  case lines =>
    have hshown : shown (fates ++ [(event, true)]) = shown fates ++ [event] := by
      rw [shown, List.filter_append, List.map_append]
      rfl
    rw [hshown, List.map_append, ← h.lines]
    exact Array.toList_push
  case lost =>
    rw [List.countP_append]
    exact h.lost
  case kept =>
    intro fate hfate hlost
    rcases List.mem_append.1 hfate with hold | hnew
    · exact h.kept fate hold hlost
    · rw [List.mem_singleton.1 hnew] at hlost
      cases hlost
  case ended =>
    rw [List.length_append]
    exact h.isTerminal_iff hends hnext

/-- **A receive keeps the account.**  If the loop is not too far behind, nothing is lost by it, and
fewer receives are due after it. -/
theorem receive (h : watch.Told events sent fates) (hends : EndsWith events outcome) :
    ∃ more, watch.receive.Told events sent (fates ++ more) ∧
      (watch.behind ≤ Channel.capacity → ∀ fate ∈ more, fate.2 = true) ∧
      due sent (fates ++ more) ≤ due sent fates - 1 := by
  have hbehind : watch.behind = sent.length - fates.length := by
    rw [behind, h.live.count, h.next]
  have hnothing (hsame : watch.receive = watch) (hread : sent.length ≤ fates.length) : ∃ more,
      watch.receive.Told events sent (fates ++ more) ∧
        (watch.behind ≤ Channel.capacity → ∀ fate ∈ more, fate.2 = true) ∧
        due sent (fates ++ more) ≤ due sent fates - 1 := by
    refine ⟨[], ?_, fun _ _ hmem => absurd hmem List.not_mem_nil, ?_⟩
    · rwa [hsame, List.append_nil]
    · rw [List.append_nil, due_of_kept (by omega)]
      omega
  cases hended : watch.display.ended with
  | true => exact hnothing (receive_eq_self (.inl hended)) (h.ended.1 hended ▸ h.known.length_le)
  | false =>
    rcases Nat.lt_or_ge (fates.length + Channel.capacity) sent.length with hlag | hkept
    · refine ⟨_, h.receive_of_lagging hends hended hlag, fun hle => by omega, ?_⟩
      have hlength : ((sent.take (sent.length - Channel.capacity)).drop fates.length).length
          = sent.length - Channel.capacity - fates.length := by
        rw [List.length_drop, List.length_take_of_le (Nat.sub_le _ _)]
      have hdue : due sent fates = Channel.capacity + 1 := if_pos hlag
      rw [hdue, due_of_kept, List.length_append, List.length_map, hlength]
      · omega
      · rw [List.length_append, List.length_map, hlength]
        omega
    · cases hnext : sent[fates.length]? with
      | some event =>
        refine ⟨_, h.receive_of_kept hends hended hkept hnext, fun _ fate hfate => by
          rw [List.mem_singleton.1 hfate], ?_⟩
        rw [due_of_kept hkept, due_of_kept (by rw [List.length_append]; omega), List.length_append]
        exact Nat.le_of_eq (Nat.sub_add_eq ..)
      | none =>
        have hread := List.getElem?_eq_none_iff.1 hnext
        refine hnothing (receive_eq_self (.inr ?_)) hread
        rw [h.next]
        exact h.live.receive?_of_read hread

/-- Nothing becomes of an event by being pushed. -/
theorem push (h : watch.Told events sent fates) {event : Event} {pending : List Event}
    (hknown : sent ++ [event] <+: events) :
    Told events { watch with pending, log := watch.log.push event } (sent ++ [event]) fates where
  live := h.live.send event
  known := hknown
  told := by rw [List.take_append_of_le_length h.length_le, h.told]
  next := h.next
  lines := h.lines
  lost := h.lost
  kept := h.kept
  ended := h.ended

end Told

end Watch
end Tool
end BlockScript
