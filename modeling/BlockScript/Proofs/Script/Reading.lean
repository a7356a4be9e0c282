import BlockScript.Proofs.Script.Grammar
import Mathlib.Data.List.Induction

/-!
# Reading follows the grammar

A script is read lexeme by lexeme, and what has been read is a list of open forms.  This file says
where a script that does not follow the grammar goes wrong first, without speaking of open forms in
a list, and proves that scripts are read as the grammar says and refused for just that.

## What is here

* `Script.InnermostOpen` — the innermost form that is open after some lexemes.
* `Script.Offends` and `Script.Charge` — a lexeme at which something is wrong, and the error that
  belongs to it; `Script.Refusal` — the error that belongs to the first of them, or to the end.
* `Script.IsForm.readAs` and `Script.AreForms.read` — what follows the grammar is read as it says.
* `Script.Reads` — the invariant: what has been read is forms, and forms inside which parts have
  been read.  `Script.Reading.At.step` says that a lexeme keeps it, unless something is wrong there.
* `Program.ofScript_spec` — **a script is accepted if and only if it follows the grammar**, and is
  refused for the first thing that is wrong otherwise.
-/

set_option autoImplicit false
namespace BlockScript
namespace Script

/-! ## Where a script goes wrong -/

/-- The innermost form that is open after some lexemes, by the lexeme that opens it and those that
stand inside: every form that is opened later has been closed. -/
def InnermostOpen (before : List Lexeme) (opening : Lexeme) (inner : List Lexeme) : Prop :=
  (∃ outer, before = outer ++ opening :: inner)
    ∧ opening.token = .opening ∧ level 0 (inner.map Lexeme.token) = some 0

/-- No form is open after some lexemes. -/
def NothingOpen (before : List Lexeme) : Prop :=
  ∀ opening inner, ¬ InnermostOpen before opening inner

/-- Something is wrong at a lexeme that comes after some others. -/
inductive Offends (before : List Lexeme) (lexeme : Lexeme) : Prop
  /-- It closes a form, and none is open. -/
  | strayClosing (htoken : lexeme.token = .closing) (hopen : NothingOpen before)
  /-- It is an atom outside every form. -/
  | strayAtom {atom : Atom} (htoken : lexeme.token = .atom atom) (hopen : NothingOpen before)
  /-- It closes a form that does not follow the grammar. -/
  | illFormed {opening : Lexeme} {inner : List Lexeme} (htoken : lexeme.token = .closing)
    (hopen : InnermostOpen before opening inner)
    (hform : ∀ block, ¬ IsForm ((opening :: (inner ++ [lexeme])).map Lexeme.token) block)

/-- The error that belongs to a lexeme at which something is wrong. -/
inductive Charge (before : List Lexeme) (lexeme : Lexeme) : Error → Prop
  | strayClosing (htoken : lexeme.token = .closing) (hopen : NothingOpen before) :
    Charge before lexeme (.malformed lexeme.line .strayClosing)
  | strayAtom {atom : Atom} (htoken : lexeme.token = .atom atom) (hopen : NothingOpen before) :
    Charge before lexeme (.malformed lexeme.line (.strayAtom atom.display))
  /-- What is wrong with a form is said at the line on which it was opened. -/
  | illFormed {opening : Lexeme} {inner : List Lexeme} {items : List Item} {error : Error}
    (htoken : lexeme.token = .closing) (hopen : InnermostOpen before opening inner)
    (hparts : Parts (inner.map Lexeme.token) items) (hfault : Fault opening.line items error) :
    Charge before lexeme error

/-- Nothing is wrong at any of some lexemes. -/
def Blameless (lexemes : List Lexeme) : Prop :=
  ∀ before lexeme rest, lexemes = before ++ lexeme :: rest → ¬ Offends before lexeme

/-- Why a script is refused: for the first lexeme at which something is wrong, or, if there is
none, for the innermost form that is left open. -/
inductive Refusal (lexemes : List Lexeme) : Error → Prop
  | offence {before rest : List Lexeme} {lexeme : Lexeme} {error : Error}
    (heq : lexemes = before ++ lexeme :: rest) (hbefore : Blameless before)
    (hoffends : Offends before lexeme) (hcharge : Charge before lexeme error) :
    Refusal lexemes error
  | unterminated {opening : Lexeme} {inner : List Lexeme} (hlexemes : Blameless lexemes)
    (hopen : InnermostOpen lexemes opening inner) :
    Refusal lexemes (.malformed opening.line .unterminated)

/-! ### Open forms -/

/-- A form that is opened and not closed makes a difference. -/
theorem level_ne_of_opening {lexemes outer inner : List Lexeme} {opening : Lexeme}
    (hopening : opening.token = .opening) (hinner : level 0 (inner.map Lexeme.token) = some 0)
    (hlexemes : lexemes = outer ++ opening :: inner) :
    level 0 (lexemes.map Lexeme.token) ≠ some 0 := by
  rw [hlexemes, List.map_append, List.map_cons, hopening, level_append]
  cases level 0 (outer.map Lexeme.token) with
  | none => simp
  | some depth =>
    have hdeeper := level_add hinner (depth + 1)
    rw [Nat.zero_add] at hdeeper
    rw [Option.bind_some, level, hdeeper]
    simp

theorem nothingOpen_of_level {before : List Lexeme}
    (h : level 0 (before.map Lexeme.token) = some 0) : NothingOpen before := by
  rintro opening inner ⟨⟨outer, heq⟩, hopening, hinner⟩
  exact level_ne_of_opening hopening hinner heq h

/-- At most one form is the innermost. -/
theorem InnermostOpen.unique {before inner inner' : List Lexeme} {opening opening' : Lexeme}
    (h : InnermostOpen before opening inner) (h' : InnermostOpen before opening' inner') :
    opening = opening' ∧ inner = inner' := by
  obtain ⟨⟨outer, rfl⟩, hopening, hinner⟩ := h
  obtain ⟨⟨outer', heq⟩, hopening', hinner'⟩ := h'
  -- If the two were not at the same place, one of them would be open inside the other.
  rcases List.append_eq_append_iff.1 heq with ⟨between, -, hrest⟩ | ⟨between, -, hrest⟩
  · cases between with
    | nil => simpa using hrest
    | cons first between =>
      exact absurd hinner (level_ne_of_opening hopening' hinner' (List.cons.inj hrest).2)
  · cases between with
    | nil => simpa [eq_comm] using hrest
    | cons first between =>
      exact absurd hinner' (level_ne_of_opening hopening hinner (List.cons.inj hrest).2)

theorem blameless_append_singleton {lexemes : List Lexeme} {lexeme : Lexeme}
    (h : Blameless lexemes) (hlast : ¬ Offends lexemes lexeme) :
    Blameless (lexemes ++ [lexeme]) := by
  intro before last rest heq
  rcases List.append_eq_append_iff.1 heq with ⟨between, hbefore, hrest⟩ | ⟨between, hlexemes, hrest⟩
  · cases between with
    | nil =>
      obtain ⟨rfl, -⟩ := List.cons.inj hrest
      rwa [hbefore, List.append_nil]
    | cons first between => simp at hrest
  · cases between with
    | nil =>
      obtain ⟨rfl, -⟩ := List.cons.inj hrest
      rwa [hlexemes, List.append_nil] at hlast
    | cons first between =>
      obtain ⟨rfl, -⟩ := List.cons.inj hrest
      exact h before last between hlexemes

/-! ## What follows the grammar is read as it says -/

namespace Reading

/-- Reads some more lexemes. -/
def read (reading : Reading) (lexemes : List Lexeme) : Except Error Reading :=
  lexemes.foldlM step reading

section Read

variable {reading : Reading} {lexeme : Lexeme} {form : OpenForm} {outer : List OpenForm}
  {top : Array Block}

theorem read_cons (lexemes : List Lexeme) :
    reading.read (lexeme :: lexemes)
      = reading.step lexeme >>= fun reading => reading.read lexemes := rfl

theorem read_append (lexemes more : List Lexeme) :
    reading.read (lexemes ++ more)
      = reading.read lexemes >>= fun reading => reading.read more := List.foldlM_append

theorem read_append_of_eq_ok {reading' : Reading} {lexemes : List Lexeme}
    (h : reading.read lexemes = .ok reading') (more : List Lexeme) :
    reading.read (lexemes ++ more) = reading'.read more := by
  rw [read_append, h]
  rfl

theorem step_opening (h : lexeme.token = .opening) :
    reading.step lexeme
      = .ok { reading with openForms := { line := lexeme.line } :: reading.openForms } := by
  simp [step, h]

theorem step_atom {atom : Atom} (h : lexeme.token = .atom atom) :
    step ⟨form :: outer, top⟩ lexeme
      = .ok ⟨{ form with items := form.items.push (.atom atom) } :: outer, top⟩ := by
  simp [step, h]

theorem step_closing (h : lexeme.token = .closing) :
    step ⟨form :: outer, top⟩ lexeme
      = (blockOf form.line form.items.toList).map fun block => add ⟨outer, top⟩ block := by
  simp [step, h]

end Read

end Reading

/-- Wherever they stand in a script, some tokens are read as a block. -/
def ReadAs (tokens : List Token) (block : Block) : Prop :=
  ∀ lexemes : List Lexeme, lexemes.map Lexeme.token = tokens →
    ∀ reading : Reading, reading.read lexemes = .ok (reading.add block)

/-- Wherever they stand in an open form, some tokens are read as some parts of it. -/
def Fills (tokens : List Token) (items : List Item) : Prop :=
  ∀ lexemes : List Lexeme, lexemes.map Lexeme.token = tokens →
    ∀ (form : OpenForm) (outer : List OpenForm) (top : Array Block),
      Reading.read ⟨form :: outer, top⟩ lexemes
        = .ok ⟨{ form with items := form.items ++ items } :: outer, top⟩

theorem fills_nil : Fills [] [] := by
  intro lexemes hlexemes form outer top
  obtain rfl := List.map_eq_nil_iff.1 hlexemes
  simp [Reading.read, pure, Except.pure]

theorem Fills.atom {tokens : List Token} {items : List Item} (h : Fills tokens items)
    (atom : Atom) : Fills (.atom atom :: tokens) (.atom atom :: items) := by
  intro lexemes hlexemes form outer top
  obtain ⟨lexeme, rest, rfl, htoken, hrest⟩ := List.map_eq_cons_iff.1 hlexemes
  rw [Reading.read_cons, Reading.step_atom htoken]
  refine (h rest hrest _ outer top).trans ?_
  simp

theorem Fills.block {tokens : List Token} {items : List Item} (h : Fills tokens items)
    {form : List Token} {block : Block} (hform : ReadAs form block) :
    Fills (form ++ tokens) (.block block :: items) := by
  intro lexemes hlexemes around outer top
  obtain ⟨inner, rest, rfl, hinner, hrest⟩ := List.map_eq_append_iff.1 hlexemes
  rw [Reading.read_append_of_eq_ok (hform inner hinner _)]
  refine (h rest hrest _ outer top).trans ?_
  simp

/-- A form whose parts make a block is read as that block. -/
theorem Fills.readAs {tokens : List Token} {items : List Item} (h : Fills tokens items)
    {block : Block} (hblock : ∀ line, blockOf line items = .ok block) :
    ReadAs (.opening :: (tokens ++ [.closing])) block := by
  rintro lexemes hlexemes ⟨outer, top⟩
  obtain ⟨opening, after, rfl, hopening, hafter⟩ := List.map_eq_cons_iff.1 hlexemes
  obtain ⟨inner, last, rfl, hinner, hlast⟩ := List.map_eq_append_iff.1 hafter
  obtain ⟨closing, rest, rfl, hclosing, hrest⟩ := List.map_eq_cons_iff.1 hlast
  obtain rfl := List.map_eq_nil_iff.1 hrest
  rw [Reading.read_cons, Reading.step_opening hopening]
  refine (Reading.read_append_of_eq_ok (h inner hinner _ outer top) [closing]).trans ?_
  rw [Reading.read_cons, Reading.step_closing hclosing]
  simp [hblock, Reading.read, Except.map, bind, Except.bind, pure, Except.pure]

mutual

/-- **A form is read as the block it stands for.** -/
theorem IsForm.readAs {tokens : List Token} {block : Block} (h : IsForm tokens block) :
    ReadAs tokens block := by
  match h with
  | .start hname => exact (fills_nil.atom _).readAs fun line => by rw [blockOf, hname]; rfl
  | .eat hname => exact (fills_nil.atom _).readAs fun line => by rw [blockOf, hname]; rfl
  | .move hname hgoal =>
    refine ((fills_nil.atom _).atom _).readAs fun line => ?_
    rw [blockOf, hname]
    simp only [moveOf, ofName?_eq_some_iff.2 hgoal]
    rfl
  | .loop hname hbody =>
    refine (hbody.fills.atom _).readAs fun line => ?_
    rw [blockOf, hname]
    exact loopOf_map_block line _
  | .loopOf count hname hbody =>
    refine ((hbody.fills.atom count).atom _).readAs fun line => ?_
    rw [blockOf, hname]
    simp only [Script.loopOf, bodyOf_map_block]
    rfl

/-- A list of forms inside a form is read as the blocks they stand for. -/
theorem AreForms.fills {tokens : List Token} {blocks : List Block} (h : AreForms tokens blocks) :
    Fills tokens (blocks.map .block) := by
  match h with
  | .nil => exact fills_nil
  | .cons hform hrest => exact hrest.fills.block hform.readAs

end

/-- A list of forms outside every form is read as the blocks they stand for. -/
theorem AreForms.read {tokens : List Token} {blocks : List Block} (h : AreForms tokens blocks)
    {lexemes : List Lexeme} (hlexemes : lexemes.map Lexeme.token = tokens) (top : Array Block) :
    Reading.read ⟨[], top⟩ lexemes = .ok ⟨[], top ++ blocks⟩ := by
  match h with
  | .nil =>
    obtain rfl := List.map_eq_nil_iff.1 hlexemes
    simp [Reading.read, pure, Except.pure]
  | .cons hform hrest =>
    obtain ⟨first, rest, rfl, hfirst, hlast⟩ := List.map_eq_append_iff.1 hlexemes
    rw [Reading.read_append_of_eq_ok (hform.readAs first hfirst _)]
    refine (hrest.read hlast _).trans ?_
    simp

/-- The parts of an open form are read as they are. -/
theorem Parts.fills {tokens : List Token} {items : List Item} (h : Parts tokens items) :
    Fills tokens items := by
  induction h with
  | nil => exact fills_nil
  | atom atom hrest ih => exact ih.atom atom
  | form hform hrest ih => exact ih.block hform.readAs

/-- Tokens can be taken apart into parts of a form in one way only. -/
theorem Parts.unique {lexemes : List Lexeme} {items items' : List Item}
    (h : Parts (lexemes.map Lexeme.token) items) (h' : Parts (lexemes.map Lexeme.token) items') :
    items = items' := by
  have hread := h.fills lexemes rfl ⟨0, #[]⟩ [] #[]
  rw [h'.fills lexemes rfl ⟨0, #[]⟩ [] #[]] at hread
  simpa [eq_comm] using hread

/-- A form that follows the grammar is not refused. -/
theorem blockOf_of_isForm {opening closing : Lexeme} {inner : List Lexeme} {items : List Item}
    {block : Block} (hopening : opening.token = .opening) (hclosing : closing.token = .closing)
    (hparts : Parts (inner.map Lexeme.token) items)
    (hform : IsForm ((opening :: (inner ++ [closing])).map Lexeme.token) block) :
    blockOf opening.line items = .ok block := by
  have hread := hform.readAs _ rfl {}
  rw [Reading.read_cons, Reading.step_opening hopening] at hread
  have hinner := Reading.read_append_of_eq_ok (hparts.fills inner rfl ⟨opening.line, #[]⟩ [] #[])
    [closing]
  have hboth := hinner.symm.trans hread
  rw [Reading.read_cons, Reading.step_closing hclosing] at hboth
  obtain ⟨reading, hclosed, hlast⟩ := bind_eq_ok hboth
  obtain ⟨block', hblock, rfl⟩ := map_eq_ok hclosed
  obtain rfl : block' = block := by
    simpa [Reading.read, pure, Except.pure, Reading.add] using hlast
  simpa using hblock

/-! ## What has been read -/

/-- What has been read so far: forms at the top level, and then, for each form that is still open,
the parts inside it. -/
inductive Reads : List Lexeme → List OpenForm → List Block → Prop
  | top {before : List Lexeme} {blocks : List Block}
    (h : AreForms (before.map Lexeme.token) blocks) : Reads before [] blocks
  | inside {outer inner : List Lexeme} {opening : Lexeme} {form : OpenForm}
    {forms : List OpenForm} {blocks : List Block} (houter : Reads outer forms blocks)
    (hopening : opening.token = .opening) (hline : form.line = opening.line)
    (hparts : Parts (inner.map Lexeme.token) form.items.toList) :
    Reads (outer ++ opening :: inner) (form :: forms) blocks

/-- A reading has come to the end of some lexemes. -/
def Reading.At (reading : Reading) (before : List Lexeme) : Prop :=
  Reads before reading.openForms reading.blocks.toList

section Reads

variable {before : List Lexeme} {lexeme : Lexeme} {forms : List OpenForm} {form : OpenForm}
  {top : Array Block} {reading : Reading} {error : Error}

/-- If no form is open, forms have been read. -/
theorem Reads.areForms {blocks : List Block} (h : Reads before [] blocks) :
    AreForms (before.map Lexeme.token) blocks := by
  cases h with
  | top h => exact h

theorem Reads.nothingOpen {blocks : List Block} (h : Reads before [] blocks) :
    NothingOpen before := nothingOpen_of_level h.areForms.level_eq

/-- The first of the open forms is the innermost one. -/
theorem Reads.innermostOpen {blocks : List Block} (h : Reads before (form :: forms) blocks) :
    ∃ opening inner, InnermostOpen before opening inner ∧ form.line = opening.line
      ∧ Parts (inner.map Lexeme.token) form.items.toList := by
  cases h with
  | inside houter hopening hline hparts =>
    exact ⟨_, _, ⟨⟨_, rfl⟩, hopening, hparts.level_eq⟩, hline, hparts⟩

/-- A form goes into the innermost open form, or to the top level. -/
theorem Reads.add (h : Reads before forms top.toList) {inner : List Lexeme} {block : Block}
    (hform : IsForm (inner.map Lexeme.token) block) :
    (Reading.add ⟨forms, top⟩ block).At (before ++ inner) := by
  cases h with
  | top h =>
    refine .top ?_
    rw [List.map_append, Reading.add, Array.toList_push]
    exact h.append hform.areForms
  | inside houter hopening hline hparts =>
    rw [List.append_assoc, List.cons_append]
    refine .inside houter hopening hline ?_
    rw [List.map_append, Array.toList_push]
    refine hparts.append ?_
    simpa using Parts.form hform .nil

/-- What a step does to a reading: it goes on, and nothing is wrong at the lexeme; or it is refused
with the error that belongs to the lexeme. -/
theorem Reading.At.step (h : reading.At before) (lexeme : Lexeme) :
    (∃ reading', reading.step lexeme = .ok reading' ∧ reading'.At (before ++ [lexeme])
        ∧ ¬ Offends before lexeme)
      ∨ ∃ error, reading.step lexeme = .error error ∧ Offends before lexeme
        ∧ Charge before lexeme error := by
  obtain ⟨forms, top⟩ := reading
  cases htoken : lexeme.token with
  | opening =>
    refine .inl ⟨_, Reading.step_opening htoken, .inside h htoken rfl .nil, ?_⟩
    rintro (⟨hclosing, -⟩ | ⟨hatom, -⟩ | ⟨hclosing, -, -⟩)
    · simp [htoken] at hclosing
    · simp [htoken] at hatom
    · simp [htoken] at hclosing
  | atom atom =>
    cases forms with
    | nil =>
      exact .inr ⟨_, by simp [Reading.step, htoken], .strayAtom htoken h.nothingOpen,
        .strayAtom htoken h.nothingOpen⟩
    | cons form forms =>
      obtain ⟨opening, inner, hopen, -, -⟩ := h.innermostOpen
      refine .inl ⟨_, Reading.step_atom htoken, ?_, ?_⟩
      · cases h with
        | inside houter hopening hline hparts =>
          rw [List.append_assoc, List.cons_append]
          refine .inside houter hopening hline ?_
          rw [List.map_append, Array.toList_push, List.map_singleton, htoken]
          exact hparts.append (.atom atom .nil)
      · rintro (⟨-, hnothing⟩ | ⟨-, hnothing⟩ | ⟨hclosing, -, -⟩)
        · exact hnothing _ _ hopen
        · exact hnothing _ _ hopen
        · simp [htoken] at hclosing
  | closing =>
    cases forms with
    | nil =>
      exact .inr ⟨_, by simp [Reading.step, htoken], .strayClosing htoken h.nothingOpen,
        .strayClosing htoken h.nothingOpen⟩
    | cons form forms =>
      cases h with
      | @inside outer inner opening _ _ _ houter hopening hline hparts =>
        have hopen : InnermostOpen (outer ++ opening :: inner) opening inner :=
          ⟨⟨outer, rfl⟩, hopening, hparts.level_eq⟩
        rw [Reading.step_closing htoken, hline]
        cases hblock : blockOf opening.line form.items.toList with
        | error error =>
          refine .inr ⟨error, rfl, .illFormed htoken hopen fun block hform => ?_,
            .illFormed htoken hopen hparts (blockOf_eq_error_iff.1 hblock)⟩
          rw [blockOf_of_isForm hopening htoken hparts hform] at hblock
          cases hblock
        | ok block =>
          have hform : IsForm ((opening :: (inner ++ [lexeme])).map Lexeme.token) block := by
            rw [List.map_cons, List.map_append, List.map_singleton, hopening, htoken]
            exact isForm_of_blockOf hparts hblock
          refine .inl ⟨_, rfl, ?_, ?_⟩
          · rw [List.append_assoc, List.cons_append]
            exact houter.add hform
          · rintro (⟨-, hnothing⟩ | ⟨hatom, -⟩ | ⟨-, hopen', hill⟩)
            · exact hnothing _ _ hopen
            · simp [htoken] at hatom
            · obtain ⟨rfl, rfl⟩ := hopen.unique hopen'
              exact hill block hform

end Reads

/-- **Reading a script**: either it is read to its end and nothing is wrong at any of its lexemes,
or it is refused at the first lexeme at which something is wrong. -/
theorem read_cases (lexemes : List Lexeme) :
    (∃ reading, Reading.read {} lexemes = .ok reading ∧ reading.At lexemes ∧ Blameless lexemes)
      ∨ ∃ before lexeme rest error, lexemes = before ++ lexeme :: rest
        ∧ Reading.read {} lexemes = .error error ∧ Blameless before ∧ Offends before lexeme
        ∧ Charge before lexeme error := by
  induction lexemes using List.reverseRecOn with
  | nil => exact .inl ⟨{}, rfl, .top .nil, by simp [Blameless]⟩
  | append_singleton lexemes lexeme ih =>
    rcases ih with ⟨reading, hread, hat, hblameless⟩ |
        ⟨before, wrong, rest, error, rfl, hread, hbefore, hoffends, hcharge⟩
    · have hlast : Reading.read {} (lexemes ++ [lexeme]) = reading.step lexeme := by
        rw [Reading.read_append_of_eq_ok hread, Reading.read, List.foldlM_cons]
        exact bind_pure _
      rcases hat.step lexeme with ⟨reading', hstep, hat', hfine⟩ |
          ⟨error, hstep, hoffends, hcharge⟩
      · exact .inl ⟨reading', hlast.trans hstep, hat',
          blameless_append_singleton hblameless hfine⟩
      · exact .inr ⟨lexemes, lexeme, [], error, rfl, hlast.trans hstep, hblameless, hoffends,
          hcharge⟩
    · refine .inr ⟨before, wrong, rest ++ [lexeme], error, by simp, ?_, hbefore, hoffends,
        hcharge⟩
      rw [Reading.read_append, hread]
      rfl

/-! ## Refusals -/

/-- Only one error belongs to a lexeme. -/
theorem Charge.unique {before : List Lexeme} {lexeme : Lexeme} {error error' : Error}
    (h : Charge before lexeme error) (h' : Charge before lexeme error') : error = error' := by
  cases h with
  | strayClosing htoken hopen =>
    cases h' with
    | strayClosing htoken' hopen' => rfl
    | strayAtom htoken' hopen' => simp [htoken] at htoken'
    | illFormed htoken' hopen' hparts hfault => exact absurd hopen' (hopen _ _)
  | strayAtom htoken hopen =>
    cases h' with
    | strayClosing htoken' hopen' => simp [htoken] at htoken'
    | strayAtom htoken' hopen' =>
      obtain rfl := Token.atom.inj (htoken.symm.trans htoken')
      rfl
    | illFormed htoken' hopen' hparts hfault => simp [htoken] at htoken'
  | illFormed htoken hopen hparts hfault =>
    cases h' with
    | strayClosing htoken' hopen' => exact absurd hopen (hopen' _ _)
    | strayAtom htoken' hopen' => simp [htoken] at htoken'
    | illFormed htoken' hopen' hparts' hfault' =>
      obtain ⟨rfl, rfl⟩ := hopen.unique hopen'
      obtain rfl := hparts.unique hparts'
      rw [← blockOf_eq_error_iff] at hfault hfault'
      exact Except.error.inj (hfault.symm.trans hfault')

/-- Only one lexeme is the first at which something is wrong. -/
theorem first_offence_unique {before before' rest rest' : List Lexeme} {lexeme lexeme' : Lexeme}
    (heq : before ++ lexeme :: rest = before' ++ lexeme' :: rest') (hbefore : Blameless before)
    (hoffends : Offends before lexeme) (hbefore' : Blameless before')
    (hoffends' : Offends before' lexeme') : before = before' ∧ lexeme = lexeme' := by
  rcases List.append_eq_append_iff.1 heq with ⟨between, hb, hrest⟩ | ⟨between, hb, hrest⟩
  · cases between with
    | nil => exact ⟨by simpa using hb.symm, (List.cons.inj hrest).1⟩
    | cons first between =>
      obtain ⟨rfl, -⟩ := List.cons.inj hrest
      exact absurd hoffends (hbefore' before lexeme between hb)
  · cases between with
    | nil => exact ⟨by simpa using hb, (List.cons.inj hrest).1.symm⟩
    | cons first between =>
      obtain ⟨rfl, -⟩ := List.cons.inj hrest
      exact absurd hoffends' (hbefore before' lexeme' between hb)

/-- There is only one reason to refuse a script. -/
theorem Refusal.unique {lexemes : List Lexeme} {error error' : Error}
    (h : Refusal lexemes error) (h' : Refusal lexemes error') : error = error' := by
  cases h with
  | offence heq hbefore hoffends hcharge =>
    cases h' with
    | offence heq' hbefore' hoffends' hcharge' =>
      obtain ⟨rfl, rfl⟩ :=
        first_offence_unique (heq.symm.trans heq') hbefore hoffends hbefore' hoffends'
      exact hcharge.unique hcharge'
    | unterminated hlexemes hopen => exact absurd hoffends (hlexemes _ _ _ heq)
  | unterminated hlexemes hopen =>
    cases h' with
    | offence heq' hbefore' hoffends' hcharge' => exact absurd hoffends' (hlexemes _ _ _ heq')
    | unterminated hlexemes' hopen' =>
      obtain ⟨rfl, -⟩ := hopen.unique hopen'
      rfl

/-- A script that follows the grammar is read as it says. -/
theorem blocks_of_areForms {text : List Char} {result : List Block}
    (h : AreForms ((lexemes text).map Lexeme.token) result) : blocks text = .ok result := by
  have hread : (lexemes text).foldlM Reading.step {} = .ok ⟨[], #[] ++ result⟩ := h.read rfl #[]
  rw [blocks, hread]
  simp [Reading.finish, bind, Except.bind]

/-- There is no reason to refuse a script that follows the grammar. -/
theorem not_refusal_of_areForms {lexemes : List Lexeme} {result : List Block} {error : Error}
    (h : AreForms (lexemes.map Lexeme.token) result) : ¬ Refusal lexemes error := by
  have hread : Reading.read {} lexemes = .ok ⟨[], #[] ++ result⟩ := h.read rfl #[]
  have hblameless : Blameless lexemes := by
    rcases read_cases lexemes with ⟨reading, -, -, hblameless⟩ |
        ⟨before, wrong, rest, error, -, hrefused, -⟩
    · exact hblameless
    · simp [hread] at hrefused
  rintro (⟨heq, -, hoffends, -⟩ | ⟨-, hopen⟩)
  · exact hblameless _ _ _ heq hoffends
  · exact nothingOpen_of_level h.level_eq _ _ hopen

/-- A script is read as the grammar says, or there is a reason to refuse it. -/
theorem blocks_cases (text : List Char) :
    (∃ result, blocks text = .ok result ∧ AreForms ((lexemes text).map Lexeme.token) result)
      ∨ ∃ error, blocks text = .error error ∧ Refusal (lexemes text) error := by
  rcases read_cases (lexemes text) with ⟨⟨forms, top⟩, hread, hat, hblameless⟩ |
      ⟨before, wrong, rest, error, heq, hread, hbefore, hoffends, hcharge⟩
  · have hblocks : blocks text = Reading.finish ⟨forms, top⟩ := by
      rw [blocks]
      exact congrArg (· >>= Reading.finish) hread
    cases forms with
    | nil => exact .inl ⟨_, hblocks, Reads.areForms hat⟩
    | cons form forms =>
      obtain ⟨opening, inner, hopen, hline, -⟩ := hat.innermostOpen
      refine .inr ⟨_, hblocks, ?_⟩
      rw [hline]
      exact .unterminated hblameless hopen
  · refine .inr ⟨error, ?_, .offence heq hbefore hoffends hcharge⟩
    rw [blocks]
    exact congrArg (· >>= Reading.finish) hread

/-- A script that is accepted follows the grammar. -/
theorem areForms_of_blocks_eq_ok {text : List Char} {result : List Block}
    (h : blocks text = .ok result) : AreForms ((lexemes text).map Lexeme.token) result := by
  rcases blocks_cases text with ⟨result', hresult, hforms⟩ | ⟨error, herror, -⟩
  · obtain rfl := Except.ok.inj (hresult.symm.trans h)
    exact hforms
  · rw [herror] at h
    cases h

/-- For a script that is refused there is a reason. -/
theorem refusal_of_blocks_eq_error {text : List Char} {error : Error}
    (h : blocks text = .error error) : Refusal (lexemes text) error := by
  rcases blocks_cases text with ⟨result, hresult, -⟩ | ⟨error', herror, hrefusal⟩
  · rw [hresult] at h
    cases h
  · obtain rfl := Except.error.inj (herror.symm.trans h)
    exact hrefusal

end Script

/-- **Scripts are read as the grammar says.**  A text spells a program if and only if its tokens are
a list of forms, and the blocks of the program are then those that the forms stand for.  Any other
text is refused, and for one reason only: the first lexeme, in the order of reading, that closes a
form when none is open, that is an atom outside every form, or that closes a form which does not
follow the grammar; or, if there is no such lexeme, the innermost form that is left open. -/
theorem Program.ofScript_spec (name text : String) :
    (∀ program, Program.ofScript name text = .ok program ↔
        program.name = name
          ∧ Script.AreForms ((Script.lexemes text.toList).map Script.Lexeme.token) program.blocks)
      ∧ ∀ error, Program.ofScript name text = .error error ↔
          Script.Refusal (Script.lexemes text.toList) error := by
  have hok : ∀ result, Script.blocks text.toList = .ok result →
      Program.ofScript name text = .ok { name, blocks := result } := by
    intro result h
    rw [Program.ofScript, h]
    rfl
  constructor
  · rintro ⟨name', result⟩
    constructor
    · intro h
      rcases Script.blocks_cases text.toList with ⟨result', hresult, hforms⟩ | ⟨error, herror, -⟩
      · rw [hok result' hresult] at h
        obtain ⟨rfl, rfl⟩ := Program.mk.inj (Except.ok.inj h)
        exact ⟨rfl, hforms⟩
      · rw [Program.ofScript, herror] at h
        cases h
    · rintro ⟨rfl, hforms⟩
      exact hok result (Script.blocks_of_areForms hforms)
  · intro error
    rcases Script.blocks_cases text.toList with ⟨result, hresult, hforms⟩ |
        ⟨error', herror, hrefusal⟩
    · rw [hok result hresult]
      exact ⟨nofun, fun h => absurd h (Script.not_refusal_of_areForms hforms)⟩
    · rw [Program.ofScript, herror]
      constructor
      · intro h
        obtain rfl := Except.error.inj h
        exact hrefusal
      · intro h
        rw [hrefusal.unique h]
        rfl

end BlockScript
