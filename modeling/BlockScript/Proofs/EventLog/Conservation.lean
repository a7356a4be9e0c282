import BlockScript.Proofs.EventLog.Deeds

/-!
# The log and the live stream tell the same story

Handles on logs are made, copied and used, and receivers come and drain, in any order.  What a log
shows and what every receiver gets is then told by the operations alone.

## What is here

* `Switchboard.afterAll` and `drains` — what some operations lead to, and what a receiver has got.
* `Switchboard.Tracks` — the switchboard is as the deeds say; every operation keeps it so
  (`Tracks.after`).
* `Switchboard.log_and_stream_agree` — snapshots, drains and what they account for.
-/

set_option autoImplicit false
namespace BlockScript
namespace Switchboard

/-! ## Doing operations -/

/-- The switchboard after an operation; one that cannot be done changes nothing. -/
def after (board : Switchboard) (op : Op) : Switchboard :=
  match board.step op with
  | .ok (board, _) => board
  | .error _ => board

/-- The switchboard after some operations. -/
def afterAll (ops : List Op) : Switchboard := ops.foldl after start

/-- What a receiver gets by an operation, if that is its drain. -/
def drained (receiver : Nat) (board : Switchboard) (op : Op) : List (List Receipt) :=
  if op = .drain receiver then
    match board.step op with
    | .ok (_, .receipts receipts) => [receipts]
    | _ => []
  else []

/-- What a receiver gets by some operations. -/
def drainsFrom (receiver : Nat) : Switchboard → List Op → List (List Receipt)
  | _, [] => []
  | board, op :: ops => drained receiver board op ++ drainsFrom receiver (board.after op) ops

/-- What a receiver has got by some operations, one list for each drain. -/
def drains (receiver : Nat) (ops : List Op) : List (List Receipt) := drainsFrom receiver start ops

theorem afterAll_concat (ops : List Op) (op : Op) :
    afterAll (ops ++ [op]) = (afterAll ops).after op := List.foldl_concat ..

theorem drains_concat (receiver : Nat) (ops : List Op) (op : Op) :
    drains receiver (ops ++ [op]) = drains receiver ops ++ drained receiver (afterAll ops) op := by
  rw [drains, drains, afterAll]
  generalize start = board
  induction ops generalizing board with
  | nil => exact List.append_nil _
  | cons first ops ih =>
    rw [List.cons_append, drainsFrom, drainsFrom, ih, List.append_assoc, List.foldl_cons]

/-! ## What every operation keeps -/

/-- A log is as the deeds say: it shows what was pushed since it was cleared, and its channel was
sent all of it. -/
def Keeps (state : EventLog) (number : Nat) (deeds : List Deed) : Prop :=
  state.snapshot = recorded number deeds ∧ state.live.Sent (sentTo number deeds)

/-- A reader has before it what its receiver has not drained yet. -/
def Reads (reader : Receiver) (receiver log : Nat) (later deeds : List Deed) : Prop :=
  reader.next ≤ (sentTo log deeds).length ∧
  (sentTo log deeds).drop reader.next = View.unread (viewOf receiver log later)

/-- The switchboard is as the deeds say. -/
structure Tracks (board : Switchboard) (holdings : Holdings) (deeds : List Deed) : Prop where
  handles : board.handles.toList = holdings.held
  logs : board.logs.size = holdings.logs
  held : ∀ number ∈ holdings.held, number < holdings.logs
  fresh : ∀ number, holdings.logs ≤ number → sentTo number deeds = []
  log : ∀ number state, board.logs[number]? = some state → Keeps state number deeds
  receivers : board.receivers.size = (subscriptions deeds).length
  receiver : ∀ receiver number reader, board.receivers[receiver]? = some (number, reader) →
    number < holdings.logs ∧ ∃ later, (subscriptions deeds)[receiver]? = some (number, later) ∧
      Reads reader receiver number later deeds

theorem tracks_start : start.Tracks {} [] where
  handles := rfl
  logs := rfl
  held number hnumber := by
    rw [List.mem_singleton] at hnumber
    subst hnumber
    decide
  fresh number _ := rfl
  log number state hstate := by
    rw [start, List.getElem?_toArray, List.getElem?_singleton] at hstate
    split at hstate
    · cases hstate
      exact ⟨rfl, Channel.sent_empty⟩
    · cases hstate
  receivers := rfl
  receiver receiver number reader hreader := by simp [start] at hreader

variable {board : Switchboard} {holdings : Holdings} {deeds : List Deed}

/-- Deeds elsewhere leave a log as it is. -/
theorem Keeps.append {state : EventLog} {number : Nat} {more : List Deed}
    (h : Keeps state number deeds) (hsent : sentTo number more = [])
    (hcleared : .cleared number ∉ more) : Keeps state number (deeds ++ more) := by
  rw [Keeps, recorded_append hcleared, sentTo_append, hsent, List.append_nil, List.append_nil]
  exact h

/-- A receiver that does not drain has the more before it. -/
theorem Reads.append {reader : Receiver} {receiver log : Nat} {later more : List Deed}
    (h : Reads reader receiver log later deeds) (hmore : .drained receiver ∉ more) :
    Reads reader receiver log (later ++ more) (deeds ++ more) := by
  obtain ⟨hle, hunread⟩ := h
  rw [Reads, sentTo_append, List.length_append, List.drop_append_of_le_length hle, hunread,
    viewOf_append, viewOf_eq_map_some hmore, View.unread_append_some]
  exact ⟨Nat.le_add_right_of_le hle, rfl⟩

namespace Tracks

theorem logOf_eq_error (h : board.Tracks holdings deeds) {handle : Nat}
    (hheld : holdings.held[handle]? = none) : board.logOf handle = .error .noSuchHandle := by
  rw [← h.handles, Array.getElem?_toList] at hheld
  rw [logOf, hheld]

theorem logOf_eq_ok (h : board.Tracks holdings deeds) {handle number : Nat}
    (hheld : holdings.held[handle]? = some number) :
    ∃ state, board.logs[number]? = some state ∧ board.logOf handle = .ok (number, state) := by
  have hlt : number < board.logs.size := by
    rw [h.logs]
    exact h.held number (List.mem_of_getElem? hheld)
  rw [← h.handles, Array.getElem?_toList] at hheld
  refine ⟨board.logs[number], Array.getElem?_eq_getElem hlt, ?_⟩
  simp only [logOf, hheld, Array.getElem?_eq_getElem hlt, Option.getD_some]

/-- An operation on a log changes nothing but this log. -/
theorem setLog (h : board.Tracks holdings deeds) {number : Nat} (hnumber : number < holdings.logs)
    {state : EventLog} {more : List Deed} (hstate : Keeps state number (deeds ++ more))
    (hsent : ∀ other, other ≠ number → sentTo other more = [])
    (hcleared : ∀ other, other ≠ number → .cleared other ∉ more)
    (hfollowed : ∀ log, .followed log ∉ more) (hdrained : ∀ receiver, .drained receiver ∉ more) :
    (board.setLog number state).Tracks holdings (deeds ++ more) where
  handles := h.handles
  logs := by rw [Switchboard.setLog, Array.size_setIfInBounds, h.logs]
  held := h.held
  fresh other hother := by rw [sentTo_append, h.fresh other hother, hsent other (by omega)]; rfl
  log other otherState hother := by
    rw [Switchboard.setLog, Array.getElem?_setIfInBounds, h.logs, if_pos hnumber] at hother
    split at hother
    · cases hother
      subst number
      exact hstate
    · next hne => exact (h.log _ _ hother).append (hsent _ (Ne.symm hne)) (hcleared _ (Ne.symm hne))
  receivers := by
    rw [subscriptions_append, subscriptions_eq_nil hfollowed, List.append_nil, List.length_map,
      ← h.receivers]
    rfl
  receiver receiver other reader hreader := by
    obtain ⟨hlt, later, hlater, hreads⟩ := h.receiver receiver other reader hreader
    refine ⟨hlt, later ++ more, ?_, hreads.append (hdrained receiver)⟩
    rw [getElem?_subscriptions_append hfollowed, hlater]
    rfl

theorem push (h : board.Tracks holdings deeds) {number : Nat} {state : EventLog}
    (hstate : board.logs[number]? = some state) (events : List Event) :
    (board.setLog number (state.pushAll events)).Tracks holdings
      (deeds ++ events.map (.sent number)) := by
  obtain ⟨hsnapshot, hsent⟩ := h.log _ _ hstate
  have hnumber : number < holdings.logs := h.logs ▸ (Array.getElem?_eq_some_iff.1 hstate).1
  refine h.setLog hnumber ⟨?_, ?_⟩ (fun other hne => sentTo_map_sent_of_ne hne.symm events)
    ?_ ?_ ?_
  · rw [EventLog.snapshot_pushAll, hsnapshot, recorded_append (by simp), sentTo_map_sent]
  · rw [sentTo_append, sentTo_map_sent]
    exact hsent.pushAll events
  all_goals simp

theorem clear (h : board.Tracks holdings deeds) {number : Nat} {state : EventLog}
    (hstate : board.logs[number]? = some state) :
    (board.setLog number state.clear).Tracks holdings (deeds ++ [.cleared number]) := by
  have hnumber : number < holdings.logs := h.logs ▸ (Array.getElem?_eq_some_iff.1 hstate).1
  refine h.setLog hnumber ⟨?_, ?_⟩ (fun _ _ => rfl) ?_ ?_ ?_
  · rw [EventLog.snapshot_clear, recorded_cleared]
  · rw [sentTo_append]
    exact (List.append_nil _).symm ▸ (h.log _ _ hstate).2
  · exact fun other hne hmem => hne (by simpa using hmem)
  all_goals simp

/-- A cloned handle holds a log that is there. -/
theorem clone (h : board.Tracks holdings deeds) {handle number : Nat}
    (hheld : holdings.held[handle]? = some number) :
    ({ board with handles := board.handles.push number } : Switchboard).Tracks
      { holdings with held := holdings.held ++ [number] } deeds where
  handles := by rw [Array.toList_push, h.handles]
  logs := h.logs
  held other hother := by
    rcases List.mem_append.1 hother with hold | hnew
    · exact h.held other hold
    · obtain rfl := List.mem_singleton.1 hnew
      exact h.held other (List.mem_of_getElem? hheld)
  fresh := h.fresh
  log := h.log
  receivers := h.receivers
  receiver := h.receiver

/-- Nothing was done to a log that is opened. -/
theorem openLog (h : board.Tracks holdings deeds) :
    ({ board with
        logs := board.logs.push {}
        handles := board.handles.push board.logs.size } : Switchboard).Tracks
      { held := holdings.held ++ [holdings.logs], logs := holdings.logs + 1 } deeds where
  handles := by rw [Array.toList_push, h.handles, h.logs]
  logs := by rw [Array.size_push, h.logs]
  held other hother := by
    rcases List.mem_append.1 hother with hold | hnew
    · exact Nat.lt_succ_of_lt (h.held other hold)
    · obtain rfl := List.mem_singleton.1 hnew
      exact Nat.lt_succ_self _
  fresh other hother := h.fresh other (Nat.le_of_succ_le hother)
  log number state hstate := by
    rw [Array.getElem?_push] at hstate
    split at hstate
    · next hnew =>
      have hnone : sentTo number deeds = [] := h.fresh number (by rw [hnew, h.logs])
      cases hstate
      refine ⟨?_, hnone ▸ Channel.sent_empty⟩
      exact (recorded_eq_nil hnone).symm
    · exact h.log _ _ hstate
  receivers := h.receivers
  receiver receiver number reader hreader := by
    obtain ⟨hlt, hlater⟩ := h.receiver receiver number reader hreader
    exact ⟨Nat.lt_succ_of_lt hlt, hlater⟩

/-- A new receiver has nothing before it. -/
theorem subscribe (h : board.Tracks holdings deeds) {number : Nat} {state : EventLog}
    (hstate : board.logs[number]? = some state) :
    ({ board with
        receivers := board.receivers.push (number, state.live.subscribe) } : Switchboard).Tracks
      holdings (deeds ++ [.followed number]) where
  handles := h.handles
  logs := h.logs
  held := h.held
  fresh other hother := by rw [sentTo_append, h.fresh other hother]; rfl
  log other otherState hother := (h.log _ _ hother).append rfl (by simp)
  receivers := by
    rw [Array.size_push, subscriptions_append, List.length_append, List.length_map, h.receivers]
    rfl
  receiver receiver other reader hreader := by
    rw [Array.getElem?_push] at hreader
    split at hreader
    · next hnew =>
      have hsent := (h.log _ _ hstate).2
      obtain ⟨rfl, rfl⟩ := Prod.mk.inj (Option.some.inj hreader)
      refine ⟨h.logs ▸ (Array.getElem?_eq_some_iff.1 hstate).1, [], ?_, ?_⟩
      · rw [hnew, subscriptions_append, h.receivers, ← List.length_map, List.getElem?_append_right
          (Nat.le_refl _), Nat.sub_self]
        rfl
      · have hnothing : sentTo number [.followed number] = [] := rfl
        rw [Reads, sentTo_append, hnothing, List.append_nil, Channel.subscribe, hsent.count]
        exact ⟨Nat.le_refl _, List.drop_length⟩
    · obtain ⟨hlt, later, hlater, hreads⟩ := h.receiver _ _ _ hreader
      refine ⟨hlt, later ++ [.followed number], ?_, hreads.append (by simp)⟩
      rw [subscriptions_append, List.getElem?_append_left, List.getElem?_map, hlater]
      · rfl
      · rw [List.length_map]
        exact (List.getElem?_eq_some_iff.1 hlater).1

/-- A receiver that drains, if it was made, has nothing before it, and the others have what they
had. -/
theorem drain (h : board.Tracks holdings deeds) {receiver : Nat}
    {receivers : Array (Nat × Receiver)} (hsize : receivers.size = board.receivers.size)
    (hothers : ∀ other, other ≠ receiver → receivers[other]? = board.receivers[other]?)
    (hown : ∀ number reader, receivers[receiver]? = some (number, reader) →
      reader.next = (sentTo number deeds).length ∧
      ∃ before, board.receivers[receiver]? = some (number, before)) :
    ({ board with receivers } : Switchboard).Tracks holdings (deeds ++ [.drained receiver]) where
  handles := h.handles
  logs := h.logs
  held := h.held
  fresh other hother := by rw [sentTo_append, h.fresh other hother]; rfl
  log other otherState hother := (h.log _ _ hother).append rfl (by simp)
  receivers := by
    rw [hsize, h.receivers, subscriptions_append, List.length_append, List.length_map]
    rfl
  receiver other number reader hother := by
    rw [getElem?_subscriptions_append (by simp)]
    by_cases hself : other = receiver
    · subst hself
      obtain ⟨hnext, before, hbefore⟩ := hown _ _ hother
      obtain ⟨hlt, later, hold, -⟩ := h.receiver _ _ _ hbefore
      refine ⟨hlt, _, by rw [hold]; rfl, ?_⟩
      have hnothing : sentTo number [.drained other] = [] := rfl
      rw [Reads, sentTo_append, hnothing, List.append_nil, viewOf_append, viewOf_drained,
        View.unread_append_none, hnext]
      exact ⟨Nat.le_refl _, List.drop_length⟩
    · obtain ⟨hlt, later, hold, hreads⟩ :=
        h.receiver _ _ _ ((hothers other hself).symm.trans hother)
      exact ⟨hlt, _, by rw [hold]; rfl, hreads.append (by simpa using hself)⟩

/-- What a drain answers. -/
theorem step_drain (h : board.Tracks holdings deeds) {receiver number : Nat} {reader : Receiver}
    (hreader : board.receivers[receiver]? = some (number, reader)) :
    ∃ later, (subscriptions deeds)[receiver]? = some (number, later) ∧
      board.step (.drain receiver) = .ok
        ({ board with
          receivers := board.receivers.setIfInBounds receiver
            (number, ⟨(sentTo number deeds).length⟩) },
        .receipts (Receipt.ofUnread (View.unread (viewOf receiver number later)))) := by
  obtain ⟨hlt, later, hlater, hle, hunread⟩ := h.receiver _ _ _ hreader
  have hin : number < board.logs.size := h.logs ▸ hlt
  have hstate := Array.getElem?_eq_getElem hin
  refine ⟨later, hlater, ?_⟩
  simp only [step, hreader, hstate, Option.getD_some, (h.log _ _ hstate).2.drain_eq hle, hunread]

theorem step_drain_of_subscribed (h : board.Tracks holdings deeds) {receiver log : Nat}
    {later : List Deed} (hlater : (subscriptions deeds)[receiver]? = some (log, later)) :
    ∃ board', board.step (.drain receiver) = .ok
      (board', .receipts (Receipt.ofUnread (View.unread (viewOf receiver log later)))) := by
  have hin : receiver < board.receivers.size :=
    h.receivers ▸ (List.getElem?_eq_some_iff.1 hlater).1
  obtain ⟨other, hother, hstep⟩ := h.step_drain (Array.getElem?_eq_getElem hin)
  obtain ⟨rfl, rfl⟩ := Prod.mk.inj (Option.some.inj (hlater.symm.trans hother))
  exact ⟨_, hstep⟩

/-- A receiver that was not made cannot drain. -/
theorem step_drain_eq_error (h : board.Tracks holdings deeds) {receiver : Nat}
    (hreceiver : (subscriptions deeds)[receiver]? = none) :
    board.step (.drain receiver) = .error .noSuchReceiver := by
  have hnone : board.receivers[receiver]? = none := by
    rw [List.getElem?_eq_none_iff, ← h.receivers] at hreceiver
    exact Array.getElem?_eq_none hreceiver
  simp only [step, hnone]

/-- What a snapshot answers. -/
theorem step_snapshot (h : board.Tracks holdings deeds) (handle : Nat) :
    board.step (.snapshot handle) = match holdings.held[handle]? with
      | none => .error .noSuchHandle
      | some log => .ok (board, .events (recorded log deeds)) := by
  rw [step]
  cases hheld : holdings.held[handle]? with
  | none => rw [h.logOf_eq_error hheld]; rfl
  | some log =>
    obtain ⟨state, hstate, hlog⟩ := h.logOf_eq_ok hheld
    rw [hlog]
    simp only [← (h.log _ _ hstate).1]
    rfl

/-- An operation that only looks changes nothing. -/
theorem after_eq_self (h : board.Tracks holdings deeds) {op : Op} {handle : Nat}
    (look : EventLog → Answer)
    (hop : board.step op = board.logOf handle >>= fun held => .ok (board, look held.2)) :
    board.after op = board := by
  rw [Switchboard.after, hop]
  cases hheld : holdings.held[handle]? with
  | none => rw [h.logOf_eq_error hheld]; rfl
  | some number =>
    obtain ⟨state, -, hlog⟩ := h.logOf_eq_ok hheld
    rw [hlog]
    rfl

/-- An operation on a log is done to the log that the handle holds, if there is one. -/
theorem after_on_handle (h : board.Tracks holdings deeds) {op : Op} {handle : Nat}
    (act : Nat × EventLog → Switchboard × Answer) {deed : Nat → List Deed}
    (hop : board.step op = board.logOf handle >>= fun held => .ok (act held))
    (hact : ∀ number state, board.logs[number]? = some state →
      (act (number, state)).1.Tracks holdings (deeds ++ deed number)) :
    (board.after op).Tracks holdings (deeds ++ holdings.held[handle]?.elim [] deed) := by
  rw [Switchboard.after, hop]
  cases hheld : holdings.held[handle]? with
  | none => rw [h.logOf_eq_error hheld]; exact (List.append_nil _).symm ▸ h
  | some number =>
    obtain ⟨state, hstate, hlog⟩ := h.logOf_eq_ok hheld
    rw [hlog]
    exact hact number state hstate

/-- **Every operation keeps the switchboard as the deeds say.** -/
theorem after (h : board.Tracks holdings deeds) (op : Op) :
    (board.after op).Tracks (holdings.after op) (deeds ++ holdings.deeds op) := by
  cases op with
  | push handle event times =>
    exact h.after_on_handle
      (fun held => (board.setLog held.1 (held.2.pushAll (List.replicate times event)), _)) rfl
      fun number state hstate => h.push hstate _
  | clear handle =>
    exact h.after_on_handle (fun held => (board.setLog held.1 held.2.clear, _)) rfl
      fun number state hstate => h.clear hstate
  | subscribe handle =>
    exact h.after_on_handle (fun held =>
        ({ board with receivers := board.receivers.push (held.1, held.2.live.subscribe) }, _)) rfl
      fun number state hstate => h.subscribe hstate
  | clone handle =>
    simp only [Switchboard.after, step, Holdings.after, Holdings.deeds, List.append_nil]
    cases hheld : holdings.held[handle]? with
    | none =>
      rw [h.logOf_eq_error hheld, Option.toList_none, List.append_nil]
      exact h
    | some number =>
      obtain ⟨state, -, hlog⟩ := h.logOf_eq_ok hheld
      rw [hlog]
      exact h.clone hheld
  | openLog => exact (List.append_nil _).symm ▸ h.openLog
  | drain receiver =>
    simp only [Switchboard.after, Holdings.after, Holdings.deeds]
    cases hreader : board.receivers[receiver]? with
    | none =>
      simp only [step, hreader]
      exact h.drain rfl (fun _ _ => rfl) fun number reader hown => by simp [hreader] at hown
    | some entry =>
      obtain ⟨number, reader⟩ := entry
      obtain ⟨later, -, hstep⟩ := h.step_drain hreader
      rw [hstep]
      refine h.drain Array.size_setIfInBounds
        (fun other hne => Array.getElem?_setIfInBounds_ne hne.symm) fun _ _ hown => ?_
      rw [Array.getElem?_setIfInBounds_self_of_lt (Array.getElem?_eq_some_iff.1 hreader).1] at hown
      obtain ⟨rfl, rfl⟩ := Prod.mk.inj (Option.some.inj hown)
      exact ⟨rfl, reader, hreader⟩
  | snapshot handle =>
    rw [h.after_eq_self (fun log => .events log.snapshot) rfl]
    exact (List.append_nil _).symm ▸ h
  | messages handle =>
    rw [h.after_eq_self (fun log => .lines log.messages) rfl]
    exact (List.append_nil _).symm ▸ h
  | size handle =>
    rw [h.after_eq_self (fun log => .number log.size) rfl]
    exact (List.append_nil _).symm ▸ h
  | isEmpty handle =>
    rw [h.after_eq_self (fun log => .truth log.isEmpty) rfl]
    exact (List.append_nil _).symm ▸ h

end Tracks

theorem tracks_afterAll (ops : List Op) :
    (afterAll ops).Tracks (Switchboard.holdings ops) (history ops) := by
  induction ops using List.reverseRecOn with
  | nil => exact tracks_start
  | append_singleton ops op ih =>
    rw [afterAll_concat, holdings_concat, history_concat]
    exact ih.after op

/-! ## What the receivers get -/

/-- Only its own drain gives a receiver something. -/
theorem not_drained_mem_deeds {receiver : Nat} {op : Op} (hop : op ≠ .drain receiver) :
    .drained receiver ∉ holdings.deeds op := by
  cases op with
  | drain other =>
    intro hmem
    rw [Holdings.deeds, List.mem_singleton, Deed.drained.injEq] at hmem
    exact hop (hmem ▸ rfl)
  | push handle event times | clear handle | subscribe handle =>
    simp only [Holdings.deeds]
    cases holdings.held[handle]? <;> simp
  | _ => exact List.not_mem_nil

theorem drained_eq_nil {receiver : Nat} {op : Op} (hop : op ≠ .drain receiver) :
    drained receiver board op = [] := by
  rw [drained, if_neg hop]

/-- What the drains of a receiver answer if it has seen nothing, or this. -/
def answersTo (view : Option View) : List (List Receipt) := view.elim [] View.answers

/-- Without a drain of its own a receiver has got what it had. -/
theorem answersTo_append {receiver : Nat} {more : List Deed} (hmore : .drained receiver ∉ more) :
    answersTo (view receiver (deeds ++ more)) = answersTo (view receiver deeds) := by
  rw [view, view, subscriptions_append]
  rcases Nat.lt_or_ge receiver (subscriptions deeds).length with hlt | hge
  · rw [List.getElem?_append_left (by rwa [List.length_map]), List.getElem?_map,
      List.getElem?_eq_getElem hlt]
    simp only [Option.map_some, answersTo, Option.elim_some]
    rw [viewOf_append, viewOf_eq_map_some hmore, View.answers_append_some]
  · rw [List.getElem?_append_right (by rwa [List.length_map]), List.getElem?_eq_none hge]
    generalize receiver - _ = index
    cases hnew : (subscriptions more)[index]? with
    | none => rfl
    | some entry =>
      obtain ⟨log, later⟩ := entry
      have hlater : .drained receiver ∉ later := fun hmem =>
        hmore ((subscriptions_suffix (List.mem_of_getElem? hnew)).subset hmem)
      simp only [Option.map_some, Option.map_none, answersTo, Option.elim_some]
      rw [viewOf_eq_map_some hlater]
      exact View.answers_append_some [] _

theorem answersTo_drain {receiver number : Nat} {later : List Deed}
    (hlater : (subscriptions deeds)[receiver]? = some (number, later)) :
    answersTo (view receiver (deeds ++ [.drained receiver]))
      = answersTo (view receiver deeds)
        ++ [Receipt.ofUnread (View.unread (viewOf receiver number later))] := by
  rw [view, view, getElem?_subscriptions_append (by simp), hlater]
  simp only [Option.map_some, answersTo, Option.elim_some]
  rw [viewOf_append, viewOf_drained, View.answers_drain]

/-- **What a receiver gets follows from what it has seen**: the events that were pushed to its log
since it was made, and its own drains among them. -/
theorem drains_eq_answersTo (receiver : Nat) (ops : List Op) :
    drains receiver ops = answersTo (view receiver (history ops)) := by
  induction ops using List.reverseRecOn with
  | nil => rfl
  | append_singleton ops op ih =>
    have htracks := tracks_afterAll ops
    rw [drains_concat, ih, history_concat]
    by_cases hop : op = .drain receiver
    · subst hop
      rw [Holdings.deeds, drained, if_pos rfl]
      cases hreader : (afterAll ops).receivers[receiver]? with
      | none =>
        have hnone : (subscriptions (history ops))[receiver]? = none := by
          rw [Array.getElem?_eq_none_iff, htracks.receivers] at hreader
          exact List.getElem?_eq_none hreader
        rw [htracks.step_drain_eq_error hnone, view, view,
          getElem?_subscriptions_append (by simp), hnone]
        rfl
      | some entry =>
        obtain ⟨number, reader⟩ := entry
        obtain ⟨later, hlater, hstep⟩ := htracks.step_drain hreader
        rw [hstep, answersTo_drain hlater]
    · rw [drained_eq_nil hop, List.append_nil, answersTo_append (not_drained_mem_deeds hop)]

/-- What is none of a receiver's business does not change what it gets. -/
theorem drains_insert {receiver log : Nat} {earlier later : List Op} {op : Op} {seen : List Deed}
    (hreceiver : (subscriptions (history (earlier ++ later)))[receiver]? = some (log, seen))
    (hop : op.Elsewhere (Switchboard.holdings earlier) receiver log) :
    drains receiver (earlier ++ op :: later) = drains receiver (earlier ++ later) := by
  rw [drains_eq_answersTo, drains_eq_answersTo, hop.view_insert hreceiver]

/-- **The log and the live stream never diverge**, whatever is done with handles and receivers.
A snapshot shows what was pushed to the log that the handle holds since it was cleared.  What a
receiver has got, and what it has not drained yet, account for all that was pushed to its log since
it was made.  A drain reports lost events only if there are more than 256, once and first, and then
gives the others.  Nothing but pushes to its log and its own drains makes a difference to a
receiver. -/
theorem log_and_stream_agree (ops : List Op) :
    (∀ handle, (afterAll ops).step (.snapshot handle) =
      match (Switchboard.holdings ops).held[handle]? with
      | none => .error .noSuchHandle
      | some log => .ok (afterAll ops, .events (recorded log (history ops)))) ∧
    (∀ receiver, match (subscriptions (history ops))[receiver]? with
      | none =>
        drains receiver ops = [] ∧ (afterAll ops).step (.drain receiver) = .error .noSuchReceiver
      | some (log, later) => ∃ read unread board,
        unread = sentTo log (later.rtakeWhile (· ≠ .drained receiver)) ∧
        read ++ unread = sentTo log later ∧
        Receipt.Account (drains receiver ops).flatten read ∧
        (afterAll ops).step (.drain receiver) = .ok (board, .receipts
          ((if 256 < unread.length then [.lagged (unread.length - 256)] else [])
            ++ (unread.drop (unread.length - 256)).map .event))) ∧
    (∀ receiver log seen earlier op later, ops = earlier ++ later →
      (subscriptions (history ops))[receiver]? = some (log, seen) →
      op.Elsewhere (Switchboard.holdings earlier) receiver log →
      drains receiver (earlier ++ op :: later) = drains receiver ops) ∧
    (∀ receiver ops' receiver', view receiver (history ops) = view receiver' (history ops') →
      drains receiver ops = drains receiver' ops') := by
  have htracks := tracks_afterAll ops
  refine ⟨htracks.step_snapshot, fun receiver => ?_, ?_, fun receiver ops' receiver' hview => ?_⟩
  · cases hlater : (subscriptions (history ops))[receiver]? with
    | none =>
      refine ⟨?_, htracks.step_drain_eq_error hlater⟩
      rw [drains_eq_answersTo, view, hlater]
      rfl
    | some entry =>
      obtain ⟨log, later⟩ := entry
      have hdrains : drains receiver ops = View.answers (viewOf receiver log later) := by
        rw [drains_eq_answersTo, view, hlater]
        rfl
      obtain ⟨board, hstep⟩ := htracks.step_drain_of_subscribed hlater
      refine ⟨View.read (viewOf receiver log later), View.unread (viewOf receiver log later),
        board, unread_viewOf later, ?_, ?_, hstep⟩
      · rw [View.read_append_unread, reduceOption_viewOf]
      · rw [hdrains]
        exact View.account_answers _
  · rintro receiver log seen earlier op later rfl hreceiver hop
    exact drains_insert hreceiver hop
  · rw [drains_eq_answersTo, drains_eq_answersTo, hview]

end Switchboard
end BlockScript
