import BlockScript.Proofs.Program.EntryPoints
import BlockScript.Proofs.Program.Size
import BlockScript.Proofs.Script.Concatenation

/-!
# Forms and blocks, one for one

A form becomes a block when it is closed, and the block goes into the form around it.  This file
says that none is lost or made up on the way: the names of the forms of a script, in the order in
which they are written, are those of its blocks in document order.

## What is here

* `Script.heads` and `Script.labels` — the names with which the forms of a script begin, as they are
  written and in lower case.  `Script.AreForms.labels_eq` says that they are the names of its
  blocks.
* `Script.AreForms.count_eq` — there are as many parentheses of either kind as there are blocks.
* `Script.uncommented` — a text without its comments; `Script.count_uncommented` says that the
  parentheses in it are the parentheses among its lexemes.
* `Program.blockCount_spec` — **no block is lost or made up**.
-/

set_option autoImplicit false
namespace BlockScript
namespace Script

/-! ## Names of forms -/

/-- The words that come directly after an opening parenthesis, in the order of reading. -/
def heads : List Token → List String
  | [] => []
  | .opening :: .atom (.word name) :: rest => name :: heads rest
  | _ :: rest => heads rest

/-- The names of the forms among some tokens, in lower case. -/
def labels (tokens : List Token) : List String := (heads tokens).map String.toLower

theorem labels_atom (atom : Atom) (rest : List Token) :
    labels (.atom atom :: rest) = labels rest := rfl

theorem labels_opening (name : String) (rest : List Token) :
    labels (.opening :: .atom (.word name) :: rest) = name.toLower :: labels rest := rfl

mutual

/-- What follows a form is not part of it, so the names in it are those of its block. -/
theorem IsForm.labels_append {tokens : List Token} {block : Block} (h : IsForm tokens block)
    (depth : Nat) (more : List Token) :
    labels (tokens ++ more)
      = (block.preorder depth).map (fun entry => entry.2.label) ++ labels more := by
  match h with
  | .start hname => exact congrArg (· :: labels more) hname
  | .eat hname => exact congrArg (· :: labels more) hname
  | .move hname hgoal => exact congrArg (· :: labels more) hname
  | .loop hname hbody =>
    have hrest := hbody.labels_append (depth + 1) (.closing :: more)
    rw [List.cons_append, List.cons_append, List.append_assoc, labels_opening, hname]
    exact congrArg ("repeat" :: ·) hrest
  | .loopOf count hname hbody =>
    have hrest := hbody.labels_append (depth + 1) (.closing :: more)
    rw [List.cons_append, List.cons_append, List.cons_append, List.append_assoc, labels_opening,
      hname, labels_atom]
    exact congrArg ("repeat" :: ·) hrest

theorem AreForms.labels_append {tokens : List Token} {blocks : List Block}
    (h : AreForms tokens blocks) (depth : Nat) (more : List Token) :
    labels (tokens ++ more)
      = (Block.preorderAll depth blocks).map (fun entry => entry.2.label) ++ labels more := by
  match h with
  | .nil => rfl
  | .cons hform hrest =>
    rw [List.append_assoc, hform.labels_append depth, hrest.labels_append depth,
      Block.preorderAll, List.map_append, List.append_assoc]

end

/-- **The names of forms are the names of their blocks**, those of outer forms before those of inner
ones. -/
theorem AreForms.labels_eq {tokens : List Token} {blocks : List Block}
    (h : AreForms tokens blocks) :
    labels tokens = (Block.preorderAll 0 blocks).map fun entry => entry.2.label := by
  simpa [labels, heads] using h.labels_append 0 []

theorem label_eq_start_iff (block : Block) : block.label = "start" ↔ block.isStart = true := by
  cases block <;> simp [Block.label, Block.isStart]

/-- As many forms are named start, in any letter case, as there are start blocks. -/
theorem AreForms.countP_heads {tokens : List Token} {blocks : List Block}
    (h : AreForms tokens blocks) :
    (heads tokens).countP (fun name => name.toLower = "start")
      = (Block.preorderAll 0 blocks).countP fun entry => entry.2.isStart := by
  have hlabels := congrArg (List.countP fun name => name = "start") h.labels_eq
  rw [labels, List.countP_map, List.countP_map] at hlabels
  refine hlabels.trans (List.countP_congr fun entry _ => ?_)
  simp [label_eq_start_iff]

/-! ## Parentheses -/

/-- A parenthesis, as a character and as a token. -/
inductive IsParen : Char → Token → Prop
  | opening : IsParen '(' .opening
  | closing : IsParen ')' .closing

section Parentheses

variable {paren : Char} {token : Token}

mutual

/-- A form has a parenthesis of either kind for each block of its tree. -/
theorem IsForm.count_eq {tokens : List Token} {block : Block} (h : IsForm tokens block)
    (hparen : IsParen paren token) : tokens.count token = block.nodes := by
  match h with
  | .start hname => cases hparen <;> rfl
  | .eat hname => cases hparen <;> rfl
  | .move hname hgoal => cases hparen <;> rfl
  | .loop hname hbody =>
    have hcount := hbody.count_eq hparen
    cases hparen <;> simp [List.count_append, hcount, Block.nodes, Nat.add_comm]
  | .loopOf count hname hbody =>
    have hcount := hbody.count_eq hparen
    cases hparen <;> simp [List.count_append, hcount, Block.nodes, Nat.add_comm]

/-- A list of forms has a parenthesis of either kind for each block. -/
theorem AreForms.count_eq {tokens : List Token} {blocks : List Block} (h : AreForms tokens blocks)
    (hparen : IsParen paren token) : tokens.count token = Block.nodesAll blocks := by
  match h with
  | .nil => rfl
  | .cons hform hrest =>
    rw [List.count_append, hform.count_eq hparen, hrest.count_eq hparen, Block.nodesAll]

end

/-! ### In the text -/

theorem Lexeme.token_eq_iff (hparen : IsParen paren token) (lexeme : Lexeme) :
    lexeme.token = token ↔ lexeme.text = [paren] := by
  unfold Lexeme.token
  cases hparen <;> split <;> simp_all

/-- A text without its comments, which run from a semicolon to the end of the line. -/
def uncommented (inComment : Bool) : List Char → List Char
  | [] => []
  | c :: rest =>
    if c = '\n' then c :: uncommented false rest
    else if inComment || c = ';' then uncommented true rest
    else c :: uncommented false rest

/-- There are no parentheses in a gap. -/
theorem count_uncommented_skipGap (hparen : IsParen paren token) (inComment : Bool) (line : Nat)
    (text : List Char) :
    (uncommented inComment text).count paren
      = (uncommented false (skipGap inComment line text).2).count paren := by
  have hblank : Text.isAsciiBlank paren = false := by cases hparen <;> rfl
  have hnewline : '\n' ≠ paren := by cases hparen <;> decide
  fun_induction skipGap inComment line text with
  | case1 inComment line => rfl
  | case2 inComment line rest ih => rw [uncommented, if_pos rfl, List.count_cons_of_ne hnewline, ih]
  | case3 inComment line c rest hc hskip ih =>
    rw [← ih, uncommented, if_neg hc]
    cases inComment with
    | true => rfl
    | false =>
      -- A blank that is not a newline is kept, but it is no parenthesis.
      have hparen' : c ≠ paren := by rintro rfl; simp [hblank] at hskip
      have hsemicolon : c ≠ ';' := by rintro rfl; exact absurd hskip (by decide)
      rw [if_neg (by simpa using hsemicolon), List.count_cons_of_ne hparen']
  | case4 inComment line rest hc hskip ih =>
    rw [← ih, uncommented, if_neg hc, if_pos (by simp)]
  | case5 inComment line c rest hc hskip hsemicolon =>
    obtain rfl : inComment = false := by simp_all
    rfl

/-- There are no parentheses in an atom. -/
theorem count_uncommented_dropWhile (hparen : IsParen paren token) (text : List Char) :
    (uncommented false (text.dropWhile isAtomChar)).count paren
      = (uncommented false text).count paren := by
  induction text with
  | nil => rfl
  | cons c text ih =>
    rw [List.dropWhile_cons]
    split
    · next hc =>
      have hnewline : c ≠ '\n' := by rintro rfl; exact absurd hc (by decide)
      have hsemicolon : c ≠ ';' := by rintro rfl; exact absurd hc (by decide)
      have hparen' : c ≠ paren := by
        rintro rfl
        cases hparen <;> exact absurd hc (by decide)
      rw [ih, uncommented, if_neg hnewline, if_neg (by simpa using hsemicolon),
        List.count_cons_of_ne hparen']
    · rfl

/-- A parenthesis outside a comment is kept. -/
theorem uncommented_paren (hparen : IsParen paren token) (rest : List Char) :
    uncommented false (paren :: rest) = paren :: uncommented false rest := by
  cases hparen <;> rfl

/-- **The parentheses of a text, its comments aside, are those among its lexemes.** -/
theorem count_uncommented (hparen : IsParen paren token) (line : Nat) (text : List Char) :
    (uncommented false text).count paren
      = ((lexemesAt line text).map Lexeme.token).count token := by
  fun_induction lexemesAt line text with
  | case1 line text hnext =>
    rw [count_uncommented_skipGap hparen false line, Lexeme.next?_eq_none_iff.1 hnext]
    rfl
  | case2 line text lexeme rest hnext ih =>
    obtain ⟨start, c, after, hskip, hcases⟩ := Lexeme.next?_cases hnext
    rw [count_uncommented_skipGap hparen false line, hskip, List.map_cons, List.count_cons, ← ih]
    rcases hcases with ⟨hc, rfl, rfl⟩ | ⟨hc, hatom, rfl, rfl⟩
    · obtain ⟨token', hc'⟩ : ∃ token', IsParen c token' := by
        rcases hc with rfl | rfl
        · exact ⟨_, .opening⟩
        · exact ⟨_, .closing⟩
      rw [uncommented_paren hc', List.count_cons]
      simp [Lexeme.token_eq_iff hparen]
    · have hparen' : c ≠ paren := by
        rintro rfl
        cases hparen <;> simp at hc
      have hdrop := count_uncommented_dropWhile hparen (c :: after)
      rw [List.dropWhile_cons_of_pos hatom] at hdrop
      simp [← hdrop, Lexeme.token_eq_iff hparen, hparen']

end Parentheses

end Script

/-! ## Programs -/

/-- **No block is lost or made up.**  Counting the blocks of a tree with a list of those still to
visit comes to its end, with the number of blocks in the tree, so that a program has as many blocks
as are listed in document order.  If a text spells a program, then it has an opening and a closing
parenthesis for each block, comments aside; the names of its forms, in the order in which they are
written and in lower case, are the names of the blocks in document order; and the program has an
entry point for each form that is named start, in any letter case. -/
theorem Program.blockCount_spec :
    (∀ block : Block, block.size = block.nodes
        ∧ ∀ total, Block.Tallies [block] 0 total ↔ total = block.size)
      ∧ (∀ program : Program,
          program.blockCount = (program.blocks.map Block.size).sum
            ∧ program.blockCount = (Block.preorderAll 0 program.blocks).length)
      ∧ ∀ (name text : String) (program : Program), Program.ofScript name text = .ok program →
          let tokens := (Script.lexemes text.toList).map Script.Lexeme.token
          let code := Script.uncommented false text.toList
          tokens.count .opening = program.blockCount
            ∧ tokens.count .closing = program.blockCount
            ∧ code.count '(' = program.blockCount
            ∧ code.count ')' = program.blockCount
            ∧ Script.labels tokens
              = (Block.preorderAll 0 program.blocks).map (fun entry => entry.2.label)
            ∧ program.entryPoints.length
              = (Script.heads tokens).countP fun name => name.toLower = "start" := by
  refine ⟨fun block => ⟨block.size_eq_nodes, fun total => Block.tallies_iff_size⟩,
    fun program => ⟨program.blockCount_eq_sum, ?_⟩, ?_⟩
  · rw [blockCount_eq_nodesAll, Block.length_preorderAll]
  · intro name text program h tokens code
    obtain ⟨blocks, hblocks, rfl⟩ := ofScript_eq_ok_iff.1 h
    have hforms : Script.AreForms tokens blocks := Script.areForms_of_blocks_eq_ok hblocks
    have hcode {paren : Char} {token : Script.Token} (hparen : Script.IsParen paren token) :
        code.count paren = tokens.count token := by
      rw [Script.count_uncommented hparen 1, ← Script.lexemes_eq]
    rw [hcode .opening, hcode .closing, hforms.count_eq .opening, hforms.count_eq .closing,
      blockCount_eq_nodesAll, entryPoints_eq, List.length_map, Block.length_startsFrom 0 0]
    exact ⟨rfl, rfl, rfl, rfl, hforms.labels_eq, hforms.countP_heads.symm⟩

/-- A form in a comment does not count, one inside a loop does, and letter case does not matter. -/
theorem Program.blockCount_looped :
    let program : Program := { name := "demo", blocks := [.start, .loop (.ofInt 3) [.start]] }
    ofScript "demo" "(Start);(eat\n(repeat 3(START))" = .ok program ∧ program.blockCount = 3
      ∧ program.entryPoints.length = 2 := by
  intro program
  have hprogram : ofScript "demo" "(Start);(eat\n(repeat 3(START))" = .ok program := by
    decide +kernel
  obtain ⟨-, -, hopenings, -, -, hentries⟩ := blockCount_spec.2.2 _ _ _ hprogram
  exact ⟨hprogram, hopenings.symm.trans (by decide),
    hentries.trans (by decide +kernel)⟩

end BlockScript
