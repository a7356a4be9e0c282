import BlockScript.EventLog.Switchboard
import BlockScript.Proofs.EventLog.Ring
import Mathlib.Data.List.DropRight
import Mathlib.Data.List.ReduceOption

/-!
# What was done to the logs

What should stand in a log, and what should reach a receiver, follows from the operations alone: it
takes to know which handles hold the same log, and nothing of how logs and channels are kept.

## What is here

* `Switchboard.Holdings` — which log each handle holds.
* `Switchboard.Deed` and `Switchboard.history` — what some operations did to the logs.
* `Switchboard.sentTo` and `recorded` — what was pushed to a log, ever and since it was cleared.
* `Switchboard.subscriptions` and `view` — what a receiver follows, and what it can see of it.
* `View.unread` and `View.answers` — what it has not drained yet, and what its drains answer.
  `View.account_answers` says that nothing is lost without a word.
-/

set_option autoImplicit false
namespace BlockScript
namespace Switchboard

/-! ## Handles and deeds -/

/-- The log that each handle holds, and the number of logs. -/
structure Holdings where
  held : List Nat := [0]
  logs : Nat := 1

/-- What is done to a log, or by a receiver. -/
inductive Deed where
  | sent (log : Nat) (event : Event)
  | cleared (log : Nat)
  | followed (log : Nat)
  | drained (receiver : Nat)
  deriving DecidableEq

namespace Holdings

/-- What is held after an operation.  A clone holds what is held already, and an opened log is one
more. -/
def after (holdings : Holdings) : Op → Holdings
  | .clone handle => { holdings with held := holdings.held ++ holdings.held[handle]?.toList }
  | .openLog => { held := holdings.held ++ [holdings.logs], logs := holdings.logs + 1 }
  | _ => holdings

/-- What an operation does to the log that its handle holds. -/
def deeds (holdings : Holdings) : Op → List Deed
  | .push handle event times =>
    holdings.held[handle]?.elim [] fun log => (List.replicate times event).map (.sent log)
  | .clear handle => holdings.held[handle]?.elim [] fun log => [.cleared log]
  | .subscribe handle => holdings.held[handle]?.elim [] fun log => [.followed log]
  | .drain receiver => [.drained receiver]
  | _ => []

/-- What some operations do. -/
def historyFrom : Holdings → List Op → List Deed
  | _, [] => []
  | holdings, op :: ops => holdings.deeds op ++ historyFrom (holdings.after op) ops

end Holdings

/-- What is held after some operations. -/
def holdings (ops : List Op) : Holdings := ops.foldl Holdings.after {}

/-- What some operations have done. -/
def history (ops : List Op) : List Deed := Holdings.historyFrom {} ops

theorem holdings_concat (ops : List Op) (op : Op) :
    holdings (ops ++ [op]) = (holdings ops).after op := List.foldl_concat ..

theorem history_append (ops more : List Op) :
    history (ops ++ more) = history ops ++ (holdings ops).historyFrom more := by
  rw [history, history, holdings]
  generalize ({} : Holdings) = start
  induction ops generalizing start with
  | nil => rfl
  | cons first ops ih =>
    rw [List.cons_append, Holdings.historyFrom, Holdings.historyFrom, ih, List.append_assoc,
      List.foldl_cons]

theorem history_concat (ops : List Op) (op : Op) :
    history (ops ++ [op]) = history ops ++ (holdings ops).deeds op := by
  rw [history_append, Holdings.historyFrom, Holdings.historyFrom, List.append_nil]

/-! ## What was pushed to a log -/

/-- The event that is sent to a log. -/
def Deed.sentTo? (log : Nat) : Deed → Option Event
  | .sent other event => if other = log then some event else none
  | _ => none

/-- All that was sent to a log, in order. -/
def sentTo (log : Nat) (deeds : List Deed) : List Event := deeds.filterMap (Deed.sentTo? log)

/-- All that was sent to a log since it was last cleared. -/
def recorded (log : Nat) (deeds : List Deed) : List Event :=
  sentTo log (deeds.rtakeWhile (· ≠ .cleared log))

variable {log other : Nat}

theorem sentTo_append (deeds more : List Deed) :
    sentTo log (deeds ++ more) = sentTo log deeds ++ sentTo log more := List.filterMap_append

theorem sentTo_map_sent (events : List Event) : sentTo log (events.map (.sent log)) = events := by
  rw [sentTo, List.filterMap_map]
  exact (List.filterMap_congr fun event _ => if_pos rfl).trans List.filterMap_some

theorem sentTo_map_sent_of_ne (hne : other ≠ log) (events : List Event) :
    sentTo log (events.map (.sent other)) = [] := by
  rw [sentTo, List.filterMap_map, List.filterMap_eq_nil_iff]
  exact fun event _ => if_neg hne

/-- All that holds of the last entries is taken from the end. -/
theorem rtakeWhile_append_of_pos {α : Type} {p : α → Bool} (all : List α) {last : List α}
    (hlast : ∀ x ∈ last, p x) : (all ++ last).rtakeWhile p = all.rtakeWhile p ++ last := by
  rw [List.rtakeWhile, List.reverse_append, List.takeWhile_append_of_pos (by simpa using hlast),
    List.reverse_append, List.reverse_reverse, List.rtakeWhile]

theorem recorded_append {deeds more : List Deed} (hmore : .cleared log ∉ more) :
    recorded log (deeds ++ more) = recorded log deeds ++ sentTo log more := by
  rw [recorded, rtakeWhile_append_of_pos _ fun deed hdeed => by
    simpa using ne_of_mem_of_not_mem hdeed hmore, sentTo_append, recorded]

/-- Where nothing was sent nothing is recorded. -/
theorem recorded_eq_nil {deeds : List Deed} (h : sentTo log deeds = []) :
    recorded log deeds = [] := by
  rw [recorded, sentTo, List.filterMap_eq_nil_iff]
  rw [sentTo, List.filterMap_eq_nil_iff] at h
  exact fun deed hdeed => h deed ((List.rtakeWhile_suffix _ _).subset hdeed)

theorem recorded_cleared (deeds : List Deed) : recorded log (deeds ++ [.cleared log]) = [] := by
  rw [recorded, List.rtakeWhile_concat_neg _ _ _ (by simp)]
  rfl

/-! ## What a receiver follows -/

/-- The log that each receiver follows, and what was done since it was made. -/
def subscriptions : List Deed → List (Nat × List Deed)
  | [] => []
  | .followed log :: later => (log, later) :: subscriptions later
  | _ :: later => subscriptions later

theorem subscriptions_append (deeds more : List Deed) :
    subscriptions (deeds ++ more)
      = (subscriptions deeds).map (fun (log, later) => (log, later ++ more))
        ++ subscriptions more := by
  fun_induction subscriptions deeds with
  | case1 => rfl
  | case2 log later ih => rw [List.cons_append, subscriptions, ih, List.map_cons, List.cons_append]
  | case3 deed later hdeed ih => rw [List.cons_append, subscriptions.eq_3 _ _ hdeed, ih]

theorem subscriptions_eq_nil {deeds : List Deed} (h : ∀ log, .followed log ∉ deeds) :
    subscriptions deeds = [] := by
  fun_induction subscriptions deeds with
  | case1 => rfl
  | case2 log later ih => exact absurd (List.mem_cons_self ..) (h log)
  | case3 deed later hdeed ih => exact ih fun log hlog => h log (List.mem_cons_of_mem _ hlog)

/-- The receivers stay where no receiver is made. -/
theorem getElem?_subscriptions_append {more : List Deed} (hmore : ∀ log, .followed log ∉ more)
    (deeds : List Deed) (receiver : Nat) :
    (subscriptions (deeds ++ more))[receiver]?
      = (subscriptions deeds)[receiver]?.map fun (log, later) => (log, later ++ more) := by
  rw [subscriptions_append, subscriptions_eq_nil hmore, List.append_nil, List.getElem?_map]

theorem subscriptions_suffix {deeds later : List Deed} {log : Nat}
    (h : (log, later) ∈ subscriptions deeds) : later <:+ deeds := by
  fun_induction subscriptions deeds with
  | case1 => cases h
  | case2 other rest ih =>
    rcases List.mem_cons.1 h with heq | hrest
    · obtain ⟨rfl, rfl⟩ := Prod.mk.inj heq
      exact List.suffix_cons ..
    · exact (ih hrest).trans (List.suffix_cons ..)
  | case3 deed rest hdeed ih => exact (ih h).trans (List.suffix_cons ..)

/-- What a receiver sees of a log: each event that is sent to it, and nothing but its own drain,
`none`, besides. -/
abbrev View := List (Option Event)

/-- What a receiver sees of a deed. -/
def Deed.sight? (receiver log : Nat) : Deed → Option (Option Event)
  | .sent other event => if other = log then some (some event) else none
  | .drained other => if other = receiver then some none else none
  | _ => none

/-- What a receiver sees of some deeds if it follows a log. -/
def viewOf (receiver log : Nat) (deeds : List Deed) : View :=
  deeds.filterMap (Deed.sight? receiver log)

/-- What a receiver has seen since it was made, if it was. -/
def view (receiver : Nat) (deeds : List Deed) : Option View :=
  (subscriptions deeds)[receiver]?.map fun (log, later) => viewOf receiver log later

variable {receiver : Nat}

theorem viewOf_append (deeds more : List Deed) :
    viewOf receiver log (deeds ++ more) = viewOf receiver log deeds ++ viewOf receiver log more :=
  List.filterMap_append

theorem viewOf_drained : viewOf receiver log [.drained receiver] = [none] := by
  simp [viewOf, Deed.sight?]

/-- A receiver that does not drain sees the events alone. -/
theorem viewOf_eq_map_some {deeds : List Deed} (h : .drained receiver ∉ deeds) :
    viewOf receiver log deeds = (sentTo log deeds).map some := by
  rw [viewOf, sentTo, List.map_filterMap]
  refine List.filterMap_congr fun deed hdeed => ?_
  cases deed with
  | sent other event =>
    simp only [Deed.sight?, Deed.sentTo?]
    split <;> rfl
  | drained other =>
    have hne : other ≠ receiver := fun heq => h (heq ▸ hdeed)
    exact if_neg hne
  | cleared _ => rfl
  | followed _ => rfl

/-- A receiver sees every event that is sent to its log. -/
theorem reduceOption_viewOf (deeds : List Deed) :
    (viewOf receiver log deeds).reduceOption = sentTo log deeds := by
  rw [List.reduceOption, viewOf, List.filterMap_filterMap, sentTo]
  refine List.filterMap_congr fun deed _ => ?_
  cases deed with
  | sent other event =>
    simp only [Deed.sight?, Deed.sentTo?]
    split <;> rfl
  | drained other =>
    simp only [Deed.sight?, Deed.sentTo?]
    split <;> rfl
  | cleared _ => rfl
  | followed _ => rfl

/-! ## What is none of a receiver's business -/

/-- An operation that is none of a receiver's business if that follows a log: it pushes elsewhere,
clears, looks, or drains another receiver. -/
def Op.Elsewhere (holdings : Holdings) (receiver log : Nat) : Op → Prop
  | .push handle _ _ => holdings.held[handle]? ≠ some log
  | .drain other => other ≠ receiver
  | .clone _ | .openLog | .subscribe _ => False
  | _ => True

variable {holdings : Holdings} {op : Op}

theorem Op.Elsewhere.after_eq (hop : op.Elsewhere holdings receiver log) :
    holdings.after op = holdings := by
  cases op with
  | clone _ | openLog => exact hop.elim
  | _ => rfl

theorem Op.Elsewhere.not_followed_mem (hop : op.Elsewhere holdings receiver log) (other : Nat) :
    .followed other ∉ holdings.deeds op := by
  cases op with
  | push handle event times | clear handle =>
    simp only [Holdings.deeds]
    cases holdings.held[handle]? <;> simp
  | subscribe handle => exact hop.elim
  | _ => simp [Holdings.deeds]

/-- A receiver sees nothing of it. -/
theorem Op.Elsewhere.viewOf_deeds (hop : op.Elsewhere holdings receiver log) :
    viewOf receiver log (holdings.deeds op) = [] := by
  cases op with
  | push handle event times =>
    rw [Holdings.deeds]
    cases hheld : holdings.held[handle]? with
    | none => rfl
    | some other =>
      have hne : other ≠ log := fun heq => hop (heq ▸ hheld)
      rw [Option.elim_some, viewOf_eq_map_some (by simp), sentTo_map_sent_of_ne hne, List.map_nil]
  | drain other => exact List.filterMap_cons_none (if_neg hop)
  | clear handle =>
    rw [Holdings.deeds]
    cases holdings.held[handle]? <;> rfl
  | clone _ | openLog | subscribe _ => exact hop.elim
  | _ => rfl

/-- So its view is as if the operation had not been done. -/
theorem Op.Elsewhere.view_insert {earlier later : List Op} {seen : List Deed}
    (hop : op.Elsewhere (Switchboard.holdings earlier) receiver log)
    (hreceiver : (subscriptions (history (earlier ++ later)))[receiver]? = some (log, seen)) :
    view receiver (history (earlier ++ op :: later))
      = view receiver (history (earlier ++ later)) := by
  rw [history_append] at hreceiver
  rw [history_append, history_append, Holdings.historyFrom, hop.after_eq, view, view, hreceiver]
  rw [subscriptions_append] at hreceiver ⊢
  rcases Nat.lt_or_ge receiver (subscriptions (history earlier)).length with hlt | hge
  · have hmapped (more : List Deed) : receiver < ((subscriptions (history earlier)).map
        fun (log, later) => (log, later ++ more)).length := by rwa [List.length_map]
    obtain ⟨⟨other, since⟩, hsince⟩ : ∃ entry,
        (subscriptions (history earlier))[receiver]? = some entry :=
      ⟨_, List.getElem?_eq_getElem hlt⟩
    rw [List.getElem?_append_left (hmapped _), List.getElem?_map, hsince] at hreceiver ⊢
    obtain ⟨rfl, rfl⟩ := Prod.mk.inj (Option.some.inj hreceiver)
    simp only [Option.map_some, viewOf_append, hop.viewOf_deeds, List.nil_append]
  · have hmapped (more : List Deed) : ((subscriptions (history earlier)).map
        fun (log, later) => (log, later ++ more)).length ≤ receiver := by rwa [List.length_map]
    rw [List.getElem?_append_right (hmapped _), List.length_map] at hreceiver ⊢
    rw [subscriptions_append, subscriptions_eq_nil hop.not_followed_mem, List.map_nil,
      List.nil_append, hreceiver]

/-! ## What its drains answer -/

namespace View

/-- The events that were sent after the last drain. -/
def unread (view : View) : List Event := (view.rtakeWhile Option.isSome).reduceOption

/-- The events that were sent before the last drain. -/
def read (view : View) : List Event := (view.rdropWhile Option.isSome).reduceOption

/-- What the drains answer, when some events were waiting already. -/
def answersFrom : List Event → View → List (List Receipt)
  | _, [] => []
  | waiting, some event :: view => answersFrom (waiting ++ [event]) view
  | waiting, none :: view => Receipt.ofUnread waiting :: answersFrom [] view

/-- What the drains answer: each of them what was sent since the one before. -/
def answers (view : View) : List (List Receipt) := answersFrom [] view

theorem read_append_unread (view : View) : view.read ++ view.unread = view.reduceOption := by
  rw [read, unread, ← List.reduceOption_append, List.rdropWhile_append_rtakeWhile]

theorem unread_append_some (view : View) (events : List Event) :
    unread (view ++ events.map some) = view.unread ++ events := by
  have hevents : (events.map some).reduceOption = events := by
    rw [List.reduceOption, List.filterMap_map]
    exact List.filterMap_some
  rw [unread, rtakeWhile_append_of_pos _ (by simp), List.reduceOption_append, hevents, unread]

/-- What comes before a drain does not matter for what is unread after it. -/
theorem unread_append_none (before view : View) :
    unread (before ++ none :: view) = view.unread := by
  have hdrop : (none :: before.reverse).takeWhile Option.isSome = [] := rfl
  rw [unread, unread, List.rtakeWhile, List.rtakeWhile, List.reverse_append, List.reverse_cons,
    List.append_assoc, List.singleton_append, List.takeWhile_append, hdrop]
  split
  · next hall => rw [List.append_nil, (List.takeWhile_prefix _).eq_of_length hall]
  · rfl

theorem answersFrom_append_some (waiting : List Event) (view : View) (events : List Event) :
    answersFrom waiting (view ++ events.map some) = answersFrom waiting view := by
  fun_induction answersFrom waiting view with
  | case1 waiting =>
    induction events generalizing waiting with
    | nil => rfl
    | cons event events ih => exact ih _
  | case2 waiting event view ih => exact ih
  | case3 waiting view ih => rw [List.cons_append, answersFrom, ih]

theorem answersFrom_append_none (waiting : List Event) (view : View) :
    answersFrom waiting (view ++ [none])
      = answersFrom waiting view ++ [Receipt.ofUnread (unread (waiting.map some ++ view))] := by
  fun_induction answersFrom waiting view with
  | case1 waiting =>
    have hwaiting := unread_append_some [] waiting
    rw [List.nil_append] at hwaiting
    rw [List.append_nil, hwaiting]
    rfl
  | case2 waiting event view ih =>
    rw [List.cons_append, answersFrom, ih, List.map_append, List.append_assoc]
    rfl
  | case3 waiting view ih =>
    rw [List.cons_append, answersFrom, ih, unread_append_none]
    rfl

/-- A drain answers what is unread. -/
theorem answers_drain (view : View) :
    answers (view ++ [none]) = view.answers ++ [Receipt.ofUnread view.unread] :=
  answersFrom_append_none [] view

theorem answers_append_some (view : View) (events : List Event) :
    answers (view ++ events.map some) = view.answers := answersFrom_append_some [] view events

/-- **Nothing is lost without a word.**  All that the drains answer accounts for all that was sent
before the last of them. -/
theorem account_answers (view : View) : Receipt.Account view.answers.flatten view.read := by
  induction view using List.reverseRecOn with
  | nil => exact .nil
  | append_singleton view sight ih =>
    cases sight with
    | some event =>
      have hanswers := answers_append_some view [event]
      rw [List.map_singleton] at hanswers
      rwa [hanswers, read, List.rdropWhile_concat_pos _ _ _ rfl]
    | none =>
      have hread : read (view ++ [none]) = read view ++ unread view := by
        rw [read, List.rdropWhile_concat_neg _ _ _ (by simp), List.reduceOption_append,
          List.reduceOption_singleton, Option.toList_none, List.append_nil, read_append_unread]
      rw [answers_drain, List.flatten_concat, hread]
      exact ih.append (Receipt.account_ofUnread _)

end View

/-- What a receiver has not drained yet is what was sent after its last drain. -/
theorem unread_viewOf {receiver log : Nat} (deeds : List Deed) :
    View.unread (viewOf receiver log deeds)
      = sentTo log (deeds.rtakeWhile (· ≠ .drained receiver)) := by
  induction deeds using List.reverseRecOn with
  | nil => rfl
  | append_singleton deeds deed ih =>
    rw [viewOf_append]
    by_cases hdeed : deed = .drained receiver
    · subst hdeed
      rw [viewOf_drained, View.unread_append_none, List.rtakeWhile_concat_neg _ _ _ (by simp)]
      rfl
    · rw [viewOf_eq_map_some fun hmem => hdeed (List.mem_singleton.1 hmem).symm,
        View.unread_append_some, ih,
        List.rtakeWhile_concat_pos _ _ _ (by simpa using hdeed), sentTo_append]

end Switchboard
end BlockScript
