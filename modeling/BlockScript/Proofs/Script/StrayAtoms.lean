import BlockScript.Proofs.Script.Concatenation

/-!
# Stray atoms

An atom that stands where only forms may stand is stray: outside every form it is found as it is
read, and in the body of a loop when the loop is closed.  A script that is refused for a stray atom
is refused at a line, and this file says which line that is.

## What is here

* `Script.InBody` — the tokens of a loop up to a place in its body.
* `Script.Lexeme.StandsAfter` — where a lexeme stands in a text, and that its line is that place's.
* `Script.Fault.exists_stray` — a form that is refused for a stray atom is a loop, and the atom is
  the first in its body.
* `Program.strayAtom_reported` — **the line of a stray atom is reported outside every form, and the
  line on which the loop is opened inside a body**.
-/

set_option autoImplicit false
namespace BlockScript
namespace Script

/-! ## Bodies of loops -/

/-- The tokens of a loop from its name to a place in its body.  Between them there are forms only,
and without a count at least one, because an atom that comes directly after the name is the
count. -/
inductive InBody : List Token → Prop
  | afterCount {text : String} (count : Atom) {body : List Token} {blocks : List Block}
    (hname : text.toLower = "repeat") (hbody : AreForms body blocks) :
    InBody (.atom (.word text) :: .atom count :: body)
  | afterForm {text : String} {body : List Token} {block : Block} {blocks : List Block}
    (hname : text.toLower = "repeat") (hbody : AreForms body (block :: blocks)) :
    InBody (.atom (.word text) :: body)

theorem Parts.inBody_of_count {tokens : List Token} {text : String} {count : Atom}
    {blocks : List Block} (hname : text.toLower = "repeat")
    (h : Parts tokens (.atom (.word text) :: .atom count :: blocks.map .block)) :
    InBody tokens := by
  cases h with
  | atom _ h =>
    cases h with
    | atom _ h => exact .afterCount count hname h.areForms

theorem Parts.inBody_of_form {tokens : List Token} {text : String} {block : Block}
    {blocks : List Block} (hname : text.toLower = "repeat")
    (h : Parts tokens (.atom (.word text) :: (block :: blocks).map .block)) : InBody tokens := by
  cases h with
  | atom _ h => exact .afterForm hname h.areForms

/-- An atom that messages show in some way. -/
def Lexeme.Shows (lexeme : Lexeme) (shown : String) : Prop :=
  ∃ atom, lexeme.token = .atom atom ∧ atom.display = shown

/-- Among parts with an atom, the lexeme of that atom can be told from those ahead of it. -/
theorem Parts.split_atom {inner : List Lexeme} {items rest : List Item} {atom : Atom}
    (h : Parts (inner.map Lexeme.token) (items ++ .atom atom :: rest)) :
    ∃ ahead stray behind, inner = ahead ++ stray :: behind
      ∧ Parts (ahead.map Lexeme.token) items ∧ stray.token = .atom atom := by
  obtain ⟨first, last, htokens, hfirst, hlast⟩ := h.split
  obtain ⟨ahead, after, rfl, rfl, rfl⟩ := List.map_eq_append_iff.1 htokens
  generalize hafter : after.map Lexeme.token = tokens at hlast
  cases hlast with
  | atom _ hrest =>
    obtain ⟨stray, behind, rfl, hstray, -⟩ := List.map_eq_cons_iff.1 hafter
    exact ⟨ahead, stray, behind, rfl, hfirst, hstray⟩

/-- **A form that is refused for a stray atom is a loop with the atom in its body**, the first that
is there, and is refused at the line on which it was opened. -/
theorem Fault.exists_stray {inner : List Lexeme} {items : List Item} {opened line : Nat}
    {shown : String} (h : Fault opened items (.malformed line (.strayAtom shown)))
    (hparts : Parts (inner.map Lexeme.token) items) :
    line = opened ∧ ∃ ahead stray behind, inner = ahead ++ stray :: behind
      ∧ InBody (ahead.map Lexeme.token) ∧ level 0 (ahead.map Lexeme.token) = some 0
      ∧ stray.Shows shown := by
  cases h with
  | @strayAfterCount text count atom blocks rest hname =>
    rw [← List.cons_append, ← List.cons_append] at hparts
    obtain ⟨ahead, stray, behind, rfl, hahead, hstray⟩ := hparts.split_atom
    exact ⟨rfl, ahead, stray, behind, rfl, hahead.inBody_of_count hname, hahead.level_eq, atom,
      hstray, rfl⟩
  | @strayAfterBlock text block atom blocks rest hname =>
    rw [← List.cons_append, ← List.cons_append] at hparts
    obtain ⟨ahead, stray, behind, rfl, hahead, hstray⟩ := hparts.split_atom
    exact ⟨rfl, ahead, stray, behind, rfl, hahead.inBody_of_form hname, hahead.level_eq, atom,
      hstray, rfl⟩

/-! ## Refused scripts -/

/-- A stray atom, with what is ahead of it and what is behind it, for which a script is refused. -/
inductive RefusedFor (ahead : List Lexeme) (stray : Lexeme) : List Lexeme → Lexeme → Prop
  /-- It is outside every form, and nothing is wrong ahead of it.  It is reported at itself. -/
  | outside {behind : List Lexeme} (hopen : NothingOpen ahead) (hahead : Blameless ahead) :
    RefusedFor ahead stray behind stray
  /-- It is in the body of a loop, and nothing is wrong ahead of the parenthesis that closes the
  loop.  It is reported at the parenthesis that opens it. -/
  | inside {inner more rest : List Lexeme} {opening closing : Lexeme}
    (hopen : InnermostOpen ahead opening inner) (hbody : InBody (inner.map Lexeme.token))
    (hclosing : closing.token = .closing)
    (hloop : InnermostOpen (ahead ++ stray :: more) opening (inner ++ stray :: more))
    (hmore : Blameless (ahead ++ stray :: more)) :
    RefusedFor ahead stray (more ++ closing :: rest) opening

/-- A script that is refused for a stray atom has one. -/
theorem Refusal.exists_stray {lexemes : List Lexeme} {line : Nat} {shown : String}
    (h : Refusal lexemes (.malformed line (.strayAtom shown))) :
    ∃ ahead stray behind reported, lexemes = ahead ++ stray :: behind ∧ stray.Shows shown
      ∧ RefusedFor ahead stray behind reported ∧ line = reported.line := by
  cases h with
  | @offence before rest lexeme _ heq hbefore hoffends hcharge =>
    cases hcharge with
    | @strayAtom atom htoken hopen =>
      exact ⟨before, lexeme, rest, lexeme, heq, ⟨atom, htoken, rfl⟩, .outside hopen hbefore, rfl⟩
    | @illFormed opening inner items _ htoken hopen hparts hfault =>
      obtain ⟨rfl, ahead, stray, behind, rfl, hbody, hlevel, hshows⟩ := hfault.exists_stray hparts
      obtain ⟨⟨outer, rfl⟩, hopening, hinner⟩ := hopen
      have hsplit : outer ++ opening :: (ahead ++ stray :: behind)
          = outer ++ opening :: ahead ++ stray :: behind := by simp
      rw [hsplit] at hbefore
      exact ⟨outer ++ opening :: ahead, stray, behind ++ lexeme :: rest, opening, by simp [heq],
        hshows, .inside ⟨⟨outer, rfl⟩, hopening, hlevel⟩ hbody htoken
          ⟨⟨outer, hsplit.symm⟩, hopening, hinner⟩ hbefore, rfl⟩

/-! ## Lines -/

/-- A lexeme stands in a text behind some part of it, and on the line to which the newlines of that
part lead. -/
def Lexeme.StandsAfter (lexeme : Lexeme) (text front : List Char) : Prop :=
  (∃ back, text = front ++ lexeme.text ++ back) ∧ lexeme.line = 1 + front.count '\n'

/-- A lexeme of a text stands somewhere in it. -/
theorem exists_standsAfter {text : List Char} {ahead behind : List Lexeme} {lexeme : Lexeme}
    (h : lexemes text = ahead ++ lexeme :: behind) : ∃ front, lexeme.StandsAfter text front := by
  rw [lexemes_eq] at h
  obtain ⟨front, back, htext, hline, -, -⟩ := lexemesAt_split h
  exact ⟨front, ⟨back, by rw [htext, List.append_assoc]⟩, hline⟩

/-- Of two lexemes of a text the second stands behind the first, and is on the same line if there is
no newline between them. -/
theorem exists_standsAfter_both {text : List Char} {outer inner behind : List Lexeme}
    {first second : Lexeme} (h : lexemes text = outer ++ first :: (inner ++ second :: behind)) :
    ∃ front between, first.StandsAfter text front
      ∧ second.StandsAfter text (front ++ first.text ++ between)
      ∧ (first.line = second.line ↔ '\n' ∉ between) := by
  rw [lexemes_eq] at h
  obtain ⟨front, back, htext, hfirst, hone, hinner⟩ := lexemesAt_split h
  obtain ⟨between, last, rfl, hsecond, -, -⟩ := lexemesAt_split hinner
  refine ⟨front, between, ⟨⟨between ++ (second.text ++ last), by simp [htext]⟩, hfirst⟩,
    ⟨⟨last, by simp [htext]⟩, ?_⟩, ?_⟩
  · rw [hsecond, hfirst, List.count_append, List.count_append, hone]
    omega
  · rw [← List.count_eq_zero, hsecond]
    omega

end Script

/-! ## Which line is reported -/

/-- **Where a stray atom is reported.**  If a text is refused because an atom stands where a form is
expected, then there is such an atom in it, and it starts on the line to which the newlines ahead of
it lead.  If it is outside every form, then it is the first lexeme at which something is wrong, and
its own line is reported.  If it is in the body of a loop, then it is the first atom there, the loop
is the first form at whose end something is wrong, and the line is reported on which the loop was
opened; so this is the line of the atom if and only if there is no newline between the two. -/
theorem Program.strayAtom_reported {name text : String} {line : Nat} {shown : String}
    (h : ofScript name text = .error (.malformed line (.strayAtom shown))) :
    ∃ ahead stray behind reported, Script.lexemes text.toList = ahead ++ stray :: behind
      ∧ stray.Shows shown ∧ (∃ front, stray.StandsAfter text.toList front)
      ∧ Script.RefusedFor ahead stray behind reported ∧ line = reported.line
      ∧ (reported = stray
        ∨ ∃ front between, reported.StandsAfter text.toList front
            ∧ stray.StandsAfter text.toList (front ++ reported.text ++ between)
            ∧ (line = stray.line ↔ '\n' ∉ between)) := by
  have hrefusal := Script.refusal_of_blocks_eq_error (ofScript_eq_error_iff.1 h)
  obtain ⟨ahead, stray, behind, reported, hlexemes, hshows, hrefused, rfl⟩ := hrefusal.exists_stray
  refine ⟨ahead, stray, behind, reported, hlexemes, hshows, Script.exists_standsAfter hlexemes,
    hrefused, rfl, ?_⟩
  cases hrefused with
  | outside hopen hahead => exact .inl rfl
  | inside hopen hbody hclosing hloop hmore =>
    obtain ⟨⟨outer, rfl⟩, -⟩ := hopen
    rw [List.append_assoc, List.cons_append] at hlexemes
    exact .inr (Script.exists_standsAfter_both hlexemes)

/-- A stray atom in a loop that is written on one line, behind an atom that is the count of another
loop. -/
theorem Program.strayAtom_reported_line :
    ofScript "loop" "(start)\n(repeat (repeat now) now)" = .error (.malformed 2 (.strayAtom "now"))
      ∧ ∃ ahead stray behind reported,
        Script.lexemes "(start)\n(repeat (repeat now) now)".toList = ahead ++ stray :: behind
          ∧ stray.Shows "now" ∧ Script.RefusedFor ahead stray behind reported
          ∧ 2 = reported.line := by
  have h : ofScript "loop" "(start)\n(repeat (repeat now) now)"
      = .error (.malformed 2 (.strayAtom "now")) := by decide +kernel
  obtain ⟨ahead, stray, behind, reported, hlexemes, hshows, -, hrefused, hline, -⟩ :=
    strayAtom_reported h
  exact ⟨h, ahead, stray, behind, reported, hlexemes, hshows, hrefused, hline⟩

/-- **A stray atom on the third line is reported on the first**, on which the loop around it was
opened. -/
theorem Program.strayAtom_on_other_line :
    ofScript "loop" "(repeat 2\n  (eat)\n  now)" = .error (.malformed 1 (.strayAtom "now"))
      ∧ (Script.lexemes "(repeat 2\n  (eat)\n  now)".toList).filter
          (fun lexeme => lexeme.token = .atom (.word "now")) = [⟨3, "now".toList⟩]
      ∧ Script.Lexeme.StandsAfter ⟨3, "now".toList⟩ "(repeat 2\n  (eat)\n  now)".toList
          "(repeat 2\n  (eat)\n  ".toList :=
  ⟨by decide +kernel, by decide +kernel, ⟨[')'], rfl⟩, by decide⟩

end BlockScript
