import BlockScript.Proofs.Results
import BlockScript.Script
import Mathlib.Data.List.Basic

/-!
# The grammar of scripts

Scripts are read with a list of open forms, and a form is looked at only when it closes.  This file
says without any of that which scripts there are and which blocks they stand for, and what is wrong
with a form that stands for none.

## What is here

* `Script.IsForm` and `Script.AreForms` — the grammar: the tokens of a form with the block it
  stands for, and of a list of forms with its blocks.
* `Script.Parts` — what stands inside a form that has not been closed yet: atoms and whole forms.
* `Script.Fault` — what is wrong with the parts of a form.  `Script.blockOf_eq_error_iff` says that
  a form is refused for just that, and `Script.isForm_of_blockOf` that it follows the grammar
  otherwise.
* `Script.level` — how many forms are open after some tokens.  Forms leave it as it was.
-/

set_option autoImplicit false
namespace BlockScript
namespace Script

/-! ## Forms -/

mutual

/-- The tokens of a form, and the block it stands for.  Letter case does not matter in names. -/
inductive IsForm : List Token → Block → Prop
  | start {text : String} (hname : text.toLower = "start") :
    IsForm [.opening, .atom (.word text), .closing] .start
  | eat {text : String} (hname : text.toLower = "eat") :
    IsForm [.opening, .atom (.word text), .closing] .eat
  | move {text goal : String} {direction : Direction} (hname : text.toLower = "move")
    (hgoal : goal.toLower = direction.name) :
    IsForm [.opening, .atom (.word text), .atom (.word goal), .closing] (.move direction)
  /-- A loop with the standard count. -/
  | loop {text : String} {body : List Token} {blocks : List Block}
    (hname : text.toLower = "repeat") (hbody : AreForms body blocks) :
    IsForm (.opening :: .atom (.word text) :: (body ++ [.closing])) (.loop .standard blocks)
  /-- A loop with a count of its own. -/
  | loopOf {text : String} (count : Atom) {body : List Token} {blocks : List Block}
    (hname : text.toLower = "repeat") (hbody : AreForms body blocks) :
    IsForm (.opening :: .atom (.word text) :: .atom count :: (body ++ [.closing]))
      (.loop count.count blocks)

/-- The tokens of a list of forms, and the blocks they stand for. -/
inductive AreForms : List Token → List Block → Prop
  | nil : AreForms [] []
  | cons {form rest : List Token} {block : Block} {blocks : List Block}
    (hform : IsForm form block) (hrest : AreForms rest blocks) :
    AreForms (form ++ rest) (block :: blocks)

end

theorem AreForms.append {tokens more : List Token} {blocks others : List Block}
    (h : AreForms tokens blocks) (hmore : AreForms more others) :
    AreForms (tokens ++ more) (blocks ++ others) := by
  match h with
  | .nil => exact hmore
  | .cons hform hrest =>
    rw [List.append_assoc]
    exact .cons hform (hrest.append hmore)

theorem IsForm.areForms {tokens : List Token} {block : Block} (h : IsForm tokens block) :
    AreForms tokens [block] := by
  simpa using AreForms.cons h .nil

/-- What stands inside a form that has not been closed yet: atoms and whole forms. -/
inductive Parts : List Token → List Item → Prop
  | nil : Parts [] []
  | atom (atom : Atom) {tokens : List Token} {items : List Item} (hrest : Parts tokens items) :
    Parts (.atom atom :: tokens) (.atom atom :: items)
  | form {form tokens : List Token} {block : Block} {items : List Item}
    (hform : IsForm form block) (hrest : Parts tokens items) :
    Parts (form ++ tokens) (.block block :: items)

theorem Parts.append {tokens more : List Token} {items others : List Item}
    (h : Parts tokens items) (hmore : Parts more others) :
    Parts (tokens ++ more) (items ++ others) := by
  induction h with
  | nil => exact hmore
  | atom atom hrest ih => exact .atom atom ih
  | form hform hrest ih =>
    rw [List.append_assoc]
    exact .form hform ih

/-- Tokens that are some parts and then others can be taken apart between them. -/
theorem Parts.split {tokens : List Token} {items others : List Item}
    (h : Parts tokens (items ++ others)) :
    ∃ first rest, tokens = first ++ rest ∧ Parts first items ∧ Parts rest others := by
  induction items generalizing tokens with
  | nil => exact ⟨[], tokens, rfl, .nil, h⟩
  | cons item items ih =>
    cases h with
    | atom atom hrest =>
      obtain ⟨first, rest, rfl, hfirst, hothers⟩ := ih hrest
      exact ⟨_, rest, rfl, .atom atom hfirst, hothers⟩
    | form hform hrest =>
      obtain ⟨first, rest, rfl, hfirst, hothers⟩ := ih hrest
      exact ⟨_, rest, (List.append_assoc ..).symm, .form hform hfirst, hothers⟩

/-- Parts that are all blocks are a list of forms. -/
theorem Parts.areForms {tokens : List Token} {blocks : List Block}
    (h : Parts tokens (blocks.map .block)) : AreForms tokens blocks := by
  induction blocks generalizing tokens with
  | nil =>
    cases h with
    | nil => exact .nil
  | cons block blocks ih =>
    cases h with
    | form hform hrest => exact .cons hform (ih hrest)

/-! ## What is wrong with a form -/

/-- What is wrong with a form that was opened on a line and has the given parts. -/
inductive Fault (line : Nat) : List Item → Error → Prop
  | empty : Fault line [] (.malformed line .emptyForm)
  | unnamed {item : Item} {rest : List Item} (h : ∀ text, item ≠ .atom (.word text)) :
    Fault line (item :: rest) (.malformed line .unnamedForm)
  | unknownBlock {text : String} {rest : List Item}
    (hname : text.toLower ∉ ["start", "eat", "move", "repeat"]) :
    Fault line (.atom (.word text) :: rest) (.unknownBlock text.toLower)
  | surplus {text : String} {item : Item} {rest : List Item}
    (hname : text.toLower ∈ ["start", "eat"]) :
    Fault line (.atom (.word text) :: item :: rest)
      (.malformed line (.surplusArgument text.toLower))
  | missingDirection {text : String} (hname : text.toLower = "move") :
    Fault line [.atom (.word text)] .missingDirection
  | directionIsForm {text : String} {block : Block} {rest : List Item}
    (hname : text.toLower = "move") :
    Fault line (.atom (.word text) :: .block block :: rest) (.malformed line .directionIsForm)
  | directionIsInteger {text : String} {n : Int} {rest : List Item}
    (hname : text.toLower = "move") :
    Fault line (.atom (.word text) :: .atom (.integer n) :: rest) (.unknownDirection (toString n))
  | unknownDirection {text goal : String} {rest : List Item} (hname : text.toLower = "move")
    (hgoal : ∀ direction : Direction, goal.toLower ≠ direction.name) :
    Fault line (.atom (.word text) :: .atom (.word goal) :: rest) (.unknownDirection goal)
  | surplusToMove {text goal : String} {direction : Direction} {item : Item} {rest : List Item}
    (hname : text.toLower = "move") (hgoal : goal.toLower = direction.name) :
    Fault line (.atom (.word text) :: .atom (.word goal) :: item :: rest)
      (.malformed line (.surplusArgument "move"))
  /-- An atom among the blocks of a loop that has a count. -/
  | strayAfterCount {text : String} {count atom : Atom} {blocks : List Block} {rest : List Item}
    (hname : text.toLower = "repeat") :
    Fault line (.atom (.word text) :: .atom count :: (blocks.map .block ++ .atom atom :: rest))
      (.malformed line (.strayAtom atom.display))
  /-- An atom among the blocks of a loop that has no count. -/
  | strayAfterBlock {text : String} {block : Block} {atom : Atom} {blocks : List Block}
    {rest : List Item} (hname : text.toLower = "repeat") :
    Fault line (.atom (.word text) :: .block block :: (blocks.map .block ++ .atom atom :: rest))
      (.malformed line (.strayAtom atom.display))


/-! ### Names -/

theorem toList_toLower (text : String) : text.toLower.toList = text.toList.map Char.toLower :=
  String.toList_map

/-- A name stands for a direction if it is the name of that direction in any letter case. -/
theorem ofName?_eq_some_iff {text : String} {direction : Direction} :
    Direction.ofName? text = some direction ↔ text.toLower = direction.name := by
  constructor
  · intro h
    have hfound := List.find?_some (p := fun d : Direction => d.name == text.toLower) h
    exact (beq_iff_eq.1 hfound).symm
  · intro h
    rw [Direction.ofName?, h]
    cases direction <;> decide

theorem ofName?_eq_none_iff {text : String} :
    Direction.ofName? text = none ↔ ∀ direction : Direction, text.toLower ≠ direction.name := by
  constructor
  · intro h direction heq
    rw [ofName?_eq_some_iff.2 heq] at h
    cases h
  · intro h
    cases hname : Direction.ofName? text with
    | none => rfl
    | some direction => exact absurd (ofName?_eq_some_iff.1 hname) (h direction)

/-! ### Bodies -/

section Blocks

variable {line : Nat} {items : List Item} {error : Error}

theorem bodyOf_map_block (line : Nat) (blocks : List Block) :
    bodyOf line (blocks.map .block) = .ok blocks := by
  induction blocks with
  | nil => rfl
  | cons block blocks ih =>
    rw [List.map_cons, bodyOf, ih]
    rfl

theorem loopOf_map_block (line : Nat) (blocks : List Block) :
    loopOf line (blocks.map .block) = .ok (.loop .standard blocks) := by
  cases blocks with
  | nil => rfl
  | cons block blocks =>
    rw [List.map_cons, loopOf, ← List.map_cons, bodyOf_map_block]
    · rfl
    · simp

theorem bodyOf_append_atom (line : Nat) (blocks : List Block) (atom : Atom) (rest : List Item) :
    bodyOf line (blocks.map .block ++ .atom atom :: rest)
      = .error (.malformed line (.strayAtom atom.display)) := by
  induction blocks with
  | nil => rfl
  | cons block blocks ih =>
    rw [List.map_cons, List.cons_append, bodyOf, ih]
    rfl

/-- The parts of a body are blocks, or an atom stands behind some blocks. -/
theorem blocks_or_atom (items : List Item) :
    (∃ blocks : List Block, items = blocks.map .block)
      ∨ ∃ (blocks : List Block) (atom : Atom) (rest : List Item),
          items = blocks.map .block ++ .atom atom :: rest := by
  induction items with
  | nil => exact .inl ⟨[], rfl⟩
  | cons item items ih =>
    cases item with
    | atom atom => exact .inr ⟨[], atom, items, rfl⟩
    | block block =>
      rcases ih with ⟨blocks, rfl⟩ | ⟨blocks, atom, rest, rfl⟩
      · exact .inl ⟨block :: blocks, rfl⟩
      · exact .inr ⟨block :: blocks, atom, rest, rfl⟩

theorem fault_of_moveOf {text : String} (hname : text.toLower = "move")
    (h : moveOf line items = .error error) : Fault line (.atom (.word text) :: items) error := by
  cases items with
  | nil =>
    obtain rfl := Except.error.inj h
    exact .missingDirection hname
  | cons item rest =>
    cases item with
    | block block =>
      obtain rfl := Except.error.inj h
      exact .directionIsForm hname
    | atom atom =>
      cases atom with
      | integer n =>
        obtain rfl := Except.error.inj h
        exact .directionIsInteger hname
      | word goal =>
        cases hgoal : Direction.ofName? goal with
        | none =>
          simp only [moveOf, hgoal] at h
          obtain rfl := Except.error.inj h
          exact .unknownDirection hname (ofName?_eq_none_iff.1 hgoal)
        | some direction =>
          simp only [moveOf, hgoal] at h
          cases rest with
          | nil => cases h
          | cons item rest =>
            obtain rfl := Except.error.inj h
            exact .surplusToMove hname (ofName?_eq_some_iff.1 hgoal)

theorem fault_of_loopOf {text : String} (hname : text.toLower = "repeat")
    (h : loopOf line items = .error error) : Fault line (.atom (.word text) :: items) error := by
  cases items with
  | nil => cases h
  | cons item rest =>
    cases item with
    | atom count =>
      obtain ⟨blocks, rfl⟩ | ⟨blocks, atom, rest, rfl⟩ := blocks_or_atom rest
      · rw [loopOf, bodyOf_map_block] at h
        cases h
      · rw [loopOf, bodyOf_append_atom] at h
        obtain rfl := Except.error.inj h
        exact .strayAfterCount hname
    | block block =>
      obtain ⟨blocks, rfl⟩ | ⟨blocks, atom, rest, rfl⟩ := blocks_or_atom rest
      · rw [loopOf, ← List.map_cons, bodyOf_map_block] at h
        · cases h
        · simp
      · rw [loopOf, ← List.cons_append, ← List.map_cons, bodyOf_append_atom] at h
        · obtain rfl := Except.error.inj h
          exact .strayAfterBlock hname
        · simp

/-- A form is refused for what is wrong with it. -/
theorem fault_of_blockOf (h : blockOf line items = .error error) : Fault line items error := by
  cases items with
  | nil =>
    obtain rfl := Except.error.inj h
    exact .empty
  | cons item rest =>
    cases item with
    | block block =>
      obtain rfl := Except.error.inj h
      exact .unnamed (by simp)
    | atom atom =>
      cases atom with
      | integer n =>
        obtain rfl := Except.error.inj h
        exact .unnamed (by simp)
      | word text =>
        rw [blockOf] at h
        split at h
        · next hname =>
          cases rest with
          | nil => cases h
          | cons item rest =>
            obtain rfl := Except.error.inj h
            rw [← hname]
            exact .surplus (by simp [hname])
        · next hname =>
          cases rest with
          | nil => cases h
          | cons item rest =>
            obtain rfl := Except.error.inj h
            rw [← hname]
            exact .surplus (by simp [hname])
        · next hname => exact fault_of_moveOf hname h
        · next hname => exact fault_of_loopOf hname h
        · obtain rfl := Except.error.inj h
          exact .unknownBlock (by simp_all)

/-- What is wrong with a form is what it is refused for. -/
theorem blockOf_of_fault (h : Fault line items error) : blockOf line items = .error error := by
  cases h with
  | empty => rfl
  | @unnamed item rest h =>
    cases item with
    | block block => rfl
    | atom atom =>
      cases atom with
      | integer n => rfl
      | word text => exact absurd rfl (h text)
  | unknownBlock hname =>
    simp only [List.mem_cons, List.not_mem_nil, or_false, not_or] at hname
    obtain ⟨hstart, heat, hmove, hrepeat⟩ := hname
    rw [blockOf]
    split <;> first | contradiction | rfl
  | surplus hname =>
    rw [List.mem_pair] at hname
    rcases hname with hname | hname <;> rw [blockOf, hname] <;> rfl
  | missingDirection hname => rw [blockOf, hname]; rfl
  | directionIsForm hname => rw [blockOf, hname]; rfl
  | directionIsInteger hname => rw [blockOf, hname]; rfl
  | unknownDirection hname hgoal =>
    rw [blockOf, hname]
    simp only [moveOf, ofName?_eq_none_iff.2 hgoal]
  | surplusToMove hname hgoal =>
    rw [blockOf, hname]
    simp only [moveOf, ofName?_eq_some_iff.2 hgoal]
    rfl
  | strayAfterCount hname =>
    rw [blockOf, hname]
    simp only [loopOf, bodyOf_append_atom]
    rfl
  | strayAfterBlock hname =>
    rw [blockOf, hname]
    simp only [loopOf, ← List.cons_append, ← List.map_cons, bodyOf_append_atom]
    rfl

/-- **A form is refused for just what is wrong with it.** -/
theorem blockOf_eq_error_iff : blockOf line items = .error error ↔ Fault line items error :=
  ⟨fault_of_blockOf, blockOf_of_fault⟩

/-! ### Blocks that follow the grammar -/

variable {tokens : List Token} {block : Block} {text : String}

/-- A form that takes no parts has none. -/
theorem parts_of_alone {name : String} {expected : Block} (hparts : Parts tokens items)
    (h : alone line name expected items = .ok block) : tokens = [] ∧ expected = block := by
  cases items with
  | nil =>
    cases hparts with
    | nil => exact ⟨rfl, Except.ok.inj h⟩
  | cons item rest => cases h

theorem isForm_of_moveOf (hname : text.toLower = "move") (hparts : Parts tokens items)
    (h : moveOf line items = .ok block) :
    IsForm (.opening :: .atom (.word text) :: (tokens ++ [.closing])) block := by
  cases hparts with
  | nil => cases h
  | form hform hrest => cases h
  | atom atom hrest =>
    cases atom with
    | integer n => cases h
    | word goal =>
      cases hgoal : Direction.ofName? goal with
      | none =>
        simp only [moveOf, hgoal] at h
        cases h
      | some direction =>
        simp only [moveOf, hgoal] at h
        obtain ⟨rfl, rfl⟩ := parts_of_alone hrest h
        exact .move hname (ofName?_eq_some_iff.1 hgoal)

/-- A body that is not refused is a list of forms. -/
theorem areForms_of_bodyOf {blocks : List Block} (hparts : Parts tokens items)
    (h : bodyOf line items = .ok blocks) : AreForms tokens blocks := by
  obtain ⟨others, rfl⟩ | ⟨others, atom, rest, rfl⟩ := blocks_or_atom items
  · rw [bodyOf_map_block] at h
    obtain rfl := Except.ok.inj h
    exact hparts.areForms
  · rw [bodyOf_append_atom] at h
    cases h

theorem isForm_of_loopOf (hname : text.toLower = "repeat") (hparts : Parts tokens items)
    (h : loopOf line items = .ok block) :
    IsForm (.opening :: .atom (.word text) :: (tokens ++ [.closing])) block := by
  cases hparts with
  | nil =>
    obtain rfl := Except.ok.inj h
    exact .loop hname .nil
  | form hform hrest =>
    obtain ⟨blocks, hbody, rfl⟩ := map_eq_ok h
    exact .loop hname (areForms_of_bodyOf (.form hform hrest) hbody)
  | atom count hrest =>
    obtain ⟨blocks, hbody, rfl⟩ := map_eq_ok h
    exact .loopOf count hname (areForms_of_bodyOf hrest hbody)

/-- **A form that is not refused follows the grammar.** -/
theorem isForm_of_blockOf (hparts : Parts tokens items) (h : blockOf line items = .ok block) :
    IsForm (.opening :: (tokens ++ [.closing])) block := by
  cases hparts with
  | nil => cases h
  | form hform hrest => cases h
  | atom atom hrest =>
    cases atom with
    | integer n => cases h
    | word text =>
      rw [blockOf] at h
      split at h
      · next hname =>
        obtain ⟨rfl, rfl⟩ := parts_of_alone hrest h
        exact .start hname
      · next hname =>
        obtain ⟨rfl, rfl⟩ := parts_of_alone hrest h
        exact .eat hname
      · next hname => exact isForm_of_moveOf hname hrest h
      · next hname => exact isForm_of_loopOf hname hrest h
      · cases h

end Blocks

/-! ## Open forms -/

/-- How many forms are open after some tokens, if so many were open before them; there is no answer
if a form is closed that was never opened. -/
def level (opened : Nat) : List Token → Option Nat
  | [] => some opened
  | .opening :: rest => level (opened + 1) rest
  | .closing :: rest =>
    match opened with
    | 0 => none
    | outer + 1 => level outer rest
  | .atom _ :: rest => level opened rest

theorem level_append (opened : Nat) (tokens more : List Token) :
    level opened (tokens ++ more) = (level opened tokens).bind fun opened => level opened more := by
  fun_induction level opened tokens with
  | case1 opened => rfl
  | case2 opened rest ih => exact ih
  | case3 rest => rfl
  | case4 rest outer ih => exact ih
  | case5 opened atom rest ih => exact ih

/-- Forms that are open around some tokens stay open. -/
theorem level_add {opened result : Nat} {tokens : List Token}
    (h : level opened tokens = some result) (outer : Nat) :
    level (opened + outer) tokens = some (result + outer) := by
  fun_induction level opened tokens with
  | case1 opened =>
    obtain rfl := Option.some.inj h
    rfl
  | case2 opened rest ih =>
    rw [level, Nat.add_right_comm]
    exact ih h
  | case3 rest => cases h
  | case4 rest inner ih =>
    rw [Nat.succ_add]
    exact ih h
  | case5 opened atom rest ih => exact ih h

mutual

theorem IsForm.level_eq {tokens : List Token} {block : Block} (h : IsForm tokens block) :
    level 0 tokens = some 0 := by
  match h with
  | .start hname => rfl
  | .eat hname => rfl
  | .move hname hgoal => rfl
  | .loop hname hbody =>
    rw [level, level, level_append, level_add hbody.level_eq 1]
    rfl
  | .loopOf count hname hbody =>
    rw [level, level, level, level_append, level_add hbody.level_eq 1]
    rfl

theorem AreForms.level_eq {tokens : List Token} {blocks : List Block}
    (h : AreForms tokens blocks) : level 0 tokens = some 0 := by
  match h with
  | .nil => rfl
  | .cons hform hrest =>
    rw [level_append, hform.level_eq]
    exact hrest.level_eq

end

/-- Nothing is left open among the parts of a form. -/
theorem Parts.level_eq {tokens : List Token} {items : List Item} (h : Parts tokens items) :
    level 0 tokens = some 0 := by
  induction h with
  | nil => rfl
  | atom atom hrest ih => exact ih
  | form hform hrest ih =>
    rw [level_append, hform.level_eq]
    exact ih

end Script
end BlockScript
