import BlockScript.Program
import BlockScript.Proofs.Program.Places
import Mathlib.Data.List.Forall2
import Mathlib.Data.List.TakeWhile
import Mathlib.Order.Basic

/-!
# The entry points of a program

Entry points are enumerated with a list of sibling runs that are still to scan, and the body of a
loop is put in front of the run that it interrupts.  This file says by recursion on the blocks alone
where start blocks stand and what they open, and proves that the enumeration comes to exactly those,
one after another in document order, and ends.

## What is here

* `EntryPoints.Yields` — asking again and again for the next entry point gives some sequences, and
  then none; `EntryPoints.yields_iff` says that this is so of all entry points, and of nothing else.
* `Block.Opens` — the start block at a place opens a sequence: the siblings that follow it up to the
  next start block, or to the end of the body.  `Block.Opens.unique`: no other one.
* `Block.startsFrom` — the places of the start blocks with the sequences that they open.  The scan
  comes to those of its runs (`EntryPoints.toList_eq_flatMap`); they are in document order
  (`Block.pairwise_startsFrom`), open what they should (`Block.opens_of_mem_startsFrom`), and no
  start block is missing (`Block.mem_startsFrom_of_at`).
* `Program.entryPoints_spec` — **the entry points of a program** are those of its start blocks.
-/

set_option autoImplicit false
namespace BlockScript

/-! ## Asking for entry points -/

namespace EntryPoints

/-- Asking for the next entry point again and again, as often as there is one, gives some sequences
in this order; then there is none left. -/
inductive Yields : List (List Block) → List (List Block) → Prop
  | ended {pending : List (List Block)} (h : next? pending = none) : Yields pending []
  | next {pending rest sequences : List (List Block)} {sequence : List Block}
      (h : next? pending = some (sequence, rest)) (hrest : Yields rest sequences) :
      Yields pending (sequence :: sequences)

/-- **Asking for entry points comes to an end**, and gives all of them. -/
theorem yields_iff {pending sequences : List (List Block)} :
    Yields pending sequences ↔ sequences = toList pending := by
  constructor
  · intro h
    induction h with
    | ended h => rw [toList_of_next?_eq_none h]
    | next h _ ih => rw [toList_of_next?_eq_some h, ih]
  · rintro rfl
    fun_induction toList pending with
    | case1 pending h => exact .ended h
    | case2 pending sequence rest h ih => exact .next h ih

end EntryPoints

/-! ## Start blocks and what they open -/

namespace Block

/-- The start block at a place opens a sequence: the blocks that follow it in its body, up to the
next start block of that body or to the end of it. -/
def Opens (blocks : List Block) (place : List Nat) (sequence : List Block) : Prop :=
  ∃ path counts before rest, place = path ++ [before.length]
    ∧ BodyAt blocks path counts (before ++ .start :: (sequence ++ rest))
    ∧ (∀ block ∈ sequence, block.isStart = false)
    ∧ (rest = [] ∨ ∃ others, rest = .start :: others)

/-- The places of the start blocks of a list whose first block has a given index, each with the
sequence that it opens, in document order. -/
def startsFrom (index : Nat) : List Block → List (List Nat × List Block)
  | [] => []
  | .start :: rest => ([index], rest.takeWhile (!·.isStart)) :: startsFrom (index + 1) rest
  | .loop _ body :: rest =>
    (startsFrom 0 body).map (fun entry => (index :: entry.1, entry.2))
      ++ startsFrom (index + 1) rest
  | .move _ :: rest => startsFrom (index + 1) rest
  | .eat :: rest => startsFrom (index + 1) rest

theorem isStart_iff {block : Block} : block.isStart = true ↔ block = .start := by
  cases block <;> simp [isStart]

/-- What is taken up to the next start block has none, and is followed by one if by anything. -/
theorem takeWhile_isStart_spec (blocks : List Block) :
    ∃ rest, blocks = blocks.takeWhile (!·.isStart) ++ rest
      ∧ (∀ block ∈ blocks.takeWhile (!·.isStart), block.isStart = false)
      ∧ (rest = [] ∨ ∃ others, rest = .start :: others) := by
  refine ⟨blocks.dropWhile (!·.isStart), List.takeWhile_append_dropWhile.symm, ?_, ?_⟩
  · intro block hmem
    simpa using List.mem_takeWhile_imp hmem
  · cases hrest : blocks.dropWhile (!·.isStart) with
    | nil => exact .inl rfl
    | cons next others =>
      have hnext := List.head_dropWhile_not (fun block : Block => !block.isStart)
        (show blocks.dropWhile (!·.isStart) ≠ [] by simp [hrest])
      simp only [hrest, List.head_cons, Bool.not_eq_false', isStart_iff] at hnext
      exact .inr ⟨others, by rw [hnext]⟩

/-- A list is split in one way only into blocks that are no start blocks and a rest that begins with
one or is empty. -/
theorem eq_of_append_eq_append {sequence rest sequence' rest' : List Block}
    (heq : sequence ++ rest = sequence' ++ rest')
    (h : ∀ block ∈ sequence, block.isStart = false)
    (h' : ∀ block ∈ sequence', block.isStart = false)
    (hrest : rest = [] ∨ ∃ others, rest = .start :: others)
    (hrest' : rest' = [] ∨ ∃ others, rest' = .start :: others) : sequence = sequence' := by
  have htake : ∀ {sequence rest : List Block}, (∀ block ∈ sequence, block.isStart = false) →
      (rest = [] ∨ ∃ others, rest = .start :: others) →
      (sequence ++ rest).takeWhile (!·.isStart) = sequence := by
    intro sequence rest h hrest
    rw [List.takeWhile_append_of_pos fun block hmem => by simp [h block hmem]]
    rcases hrest with rfl | ⟨others, rfl⟩ <;> simp [isStart]
  rw [← htake h hrest, heq, htake h' hrest']

/-- The start block at a place opens one sequence only. -/
theorem Opens.unique {blocks sequence sequence' : List Block} {place : List Nat}
    (h : Opens blocks place sequence) (h' : Opens blocks place sequence') :
    sequence = sequence' := by
  obtain ⟨path, counts, before, rest, rfl, hbody, hnone, hrest⟩ := h
  obtain ⟨path', counts', before', rest', hplace, hbody', hnone', hrest'⟩ := h'
  obtain ⟨rfl, hindex⟩ := List.append_inj' hplace rfl
  obtain ⟨-, hsame⟩ := hbody.unique hbody'
  obtain ⟨-, htail⟩ := List.append_inj hsame (List.singleton_inj.1 hindex)
  exact eq_of_append_eq_append (List.cons.inj htail).2 hnone hnone' hrest hrest'

/-- What opens a sequence is a start block. -/
theorem Opens.at_start {blocks sequence : List Block} {place : List Nat}
    (h : Opens blocks place sequence) : At blocks place .start := by
  obtain ⟨path, counts, before, rest, rfl, hbody, -, -⟩ := h
  exact ⟨path, before.length, counts, _, rfl, hbody, by simp⟩

/-! ### Every start block is listed, and nothing else -/

/-- What is listed is opened by a start block, in a body that a path leads to. -/
theorem opens_of_mem_startsFrom {blocks : List Block} {index : Nat} {rest : List Block}
    {entry : List Nat × List Block} (hentry : entry ∈ startsFrom index rest) {path : List Nat}
    {counts : List RepeatCount} {before : List Block} (hindex : before.length = index)
    (hbody : BodyAt blocks path counts (before ++ rest)) :
    Opens blocks (path ++ entry.1) entry.2 := by
  fun_induction startsFrom index rest generalizing entry path counts before with
  | case1 index => simp at hentry
  | case2 index rest ih =>
    rcases List.mem_cons.1 hentry with rfl | hentry
    · obtain ⟨after, hafter, hnone, hnext⟩ := takeWhile_isStart_spec rest
      refine ⟨path, counts, before, after, by rw [hindex], ?_, hnone, hnext⟩
      rwa [← hafter]
    · exact ih hentry (by simp [hindex]) (List.append_cons before _ rest ▸ hbody)
  | case3 index count body rest ihbody ihrest =>
    rcases List.mem_append.1 hentry with hentry | hentry
    · -- The entry is listed in the body of the loop, which is one index further down.
      obtain ⟨inner, hinner, rfl⟩ := List.mem_map.1 hentry
      have hloop : (before ++ .loop count body :: rest)[index]? = some (.loop count body) := by
        rw [← hindex, List.getElem?_append_right (Nat.le_refl _), Nat.sub_self]
        rfl
      have hopens := @ihbody inner hinner _ _ [] rfl (hbody.inside hloop)
      rwa [List.append_assoc] at hopens
    · exact ihrest hentry (by simp [hindex]) (List.append_cons before _ rest ▸ hbody)
  | case4 index direction rest ih =>
    exact ih hentry (by simp [hindex]) (List.append_cons before _ rest ▸ hbody)
  | case5 index rest ih =>
    exact ih hentry (by simp [hindex]) (List.append_cons before _ rest ▸ hbody)

/-- The places of a list are those of its parts. -/
theorem map_fst_startsFrom_append (index : Nat) (before rest : List Block) :
    (startsFrom index (before ++ rest)).map Prod.fst
      = (startsFrom index before).map Prod.fst
        ++ (startsFrom (index + before.length) rest).map Prod.fst := by
  induction before generalizing index with
  | nil => simp [startsFrom]
  | cons block before ih =>
    have hnext : index + (block :: before).length = index + 1 + before.length := by
      rw [List.length_cons]
      omega
    rw [hnext, List.cons_append]
    cases block <;> simp [startsFrom, ih]

/-- **Every start block is listed**, at its place. -/
theorem mem_startsFrom_of_at {blocks : List Block} {place : List Nat}
    (h : At blocks place .start) : place ∈ (startsFrom 0 blocks).map Prod.fst := by
  induction place generalizing blocks with
  | nil => exact absurd h not_at_nil
  | cons index place ih =>
    cases place with
    | nil =>
      obtain ⟨before, after, rfl, rfl⟩ := exists_split (at_singleton_iff.1 h)
      simp [map_fst_startsFrom_append, startsFrom]
    | cons next place =>
      obtain ⟨count, body, hloop, hbody⟩ := at_cons_cons_iff.1 h
      obtain ⟨before, after, rfl, rfl⟩ := exists_split hloop
      have hmem := List.mem_map_of_mem (ih hbody) (f := (before.length :: ·))
      rw [map_fst_startsFrom_append, List.mem_append]
      refine .inr ?_
      rw [startsFrom, List.map_append, List.mem_append, List.map_map, Nat.zero_add]
      rw [List.map_map] at hmem
      exact .inl hmem

/-- **Start blocks are listed in document order**: by their indices from the top down, and a place
comes ahead of those further down on the same path. -/
theorem pairwise_startsFrom (index : Nat) (rest : List Block) :
    ((startsFrom index rest).map Prod.fst).Pairwise (· < ·)
      ∧ ∀ place ∈ (startsFrom index rest).map Prod.fst,
          ∃ first path, place = first :: path ∧ index ≤ first := by
  have hlater : ∀ {index : Nat} {places : List (List Nat)},
      (∀ place ∈ places, ∃ first path, place = first :: path ∧ index + 1 ≤ first) →
      ∀ place ∈ places, ∃ first path, place = first :: path ∧ index ≤ first := by
    intro index places h place hmem
    obtain ⟨first, path, hplace, hle⟩ := h place hmem
    exact ⟨first, path, hplace, by omega⟩
  have hahead : ∀ {index : Nat} {path : List Nat} {places : List (List Nat)},
      (∀ place ∈ places, ∃ first path, place = first :: path ∧ index + 1 ≤ first) →
      ∀ place ∈ places, index :: path < place := by
    intro index path places h place hmem
    obtain ⟨first, rest, rfl, hle⟩ := h place hmem
    exact List.cons_lt_cons_iff.2 (.inl hle)
  fun_induction startsFrom index rest with
  | case1 index => simp
  | case2 index rest ih =>
    rw [List.map_cons, List.pairwise_cons, List.forall_mem_cons]
    exact ⟨⟨hahead ih.2, ih.1⟩, ⟨index, [], rfl, Nat.le_refl _⟩, hlater ih.2⟩
  | case3 index count body rest ihbody ihrest =>
    have hinner : ((startsFrom 0 body).map fun entry => (index :: entry.1, entry.2)).map Prod.fst
        = ((startsFrom 0 body).map Prod.fst).map (index :: ·) := by
      rw [List.map_map, List.map_map]
      rfl
    rw [List.map_append, hinner, List.pairwise_append, List.pairwise_map]
    refine ⟨⟨?_, ihrest.1, ?_⟩, ?_⟩
    · exact ihbody.1.imp fun h => List.cons_lt_cons_iff.2 (.inr ⟨rfl, h⟩)
    · intro inner hmem
      obtain ⟨place, -, rfl⟩ := List.mem_map.1 hmem
      exact hahead ihrest.2
    · intro place hmem
      rcases List.mem_append.1 hmem with hmem | hmem
      · obtain ⟨path, -, rfl⟩ := List.mem_map.1 hmem
        exact ⟨index, path, rfl, Nat.le_refl _⟩
      · exact hlater ihrest.2 place hmem
  | case4 index direction rest ih => exact ⟨ih.1, hlater ih.2⟩
  | case5 index rest ih => exact ⟨ih.1, hlater ih.2⟩

/-- As many places are listed as there are start blocks at any depth. -/
theorem length_startsFrom (index depth : Nat) (rest : List Block) :
    (startsFrom index rest).length
      = (preorderAll depth rest).countP fun entry => entry.2.isStart := by
  fun_induction startsFrom index rest generalizing depth with
  | case1 index => rfl
  | case2 index rest ih => simp [preorderAll, preorder, isStart, ih depth, Nat.add_comm]
  | case3 index count body rest ihbody ihrest =>
    simp [preorderAll, preorder, isStart, ihbody (depth + 1), ihrest depth]
  | case4 index direction rest ih => simp [preorderAll, preorder, isStart, ih depth]
  | case5 index rest ih => simp [preorderAll, preorder, isStart, ih depth]

end Block

/-! ## The scan -/

namespace EntryPoints

/-- What the start blocks of a run open, in document order. -/
def opened (run : List Block) : List (List Block) := (Block.startsFrom 0 run).map Prod.snd

/-- What start blocks open does not depend on the index at which a list begins. -/
theorem map_snd_startsFrom (index : Nat) (run : List Block) :
    (Block.startsFrom index run).map Prod.snd = opened run := by
  have hany : ∀ index' : Nat, (Block.startsFrom index run).map Prod.snd
      = (Block.startsFrom index' run).map Prod.snd := by
    fun_induction Block.startsFrom index run with
    | case1 index => simp [Block.startsFrom]
    | case2 index rest ih => exact fun index' => by simp [Block.startsFrom, ih (index' + 1)]
    | case3 index count body rest ihbody ihrest =>
      exact fun index' => by simp [Block.startsFrom, ihrest (index' + 1)]
    | case4 index direction rest ih =>
      exact fun index' => by simp [Block.startsFrom, ih (index' + 1)]
    | case5 index rest ih => exact fun index' => by simp [Block.startsFrom, ih (index' + 1)]
  exact hany 0

theorem opened_nil : opened [] = [] := by simp [opened, Block.startsFrom]

theorem opened_start (rest : List Block) :
    opened (.start :: rest) = rest.takeWhile (!·.isStart) :: opened rest := by
  rw [opened, Block.startsFrom, List.map_cons, map_snd_startsFrom]

theorem opened_loop (count : RepeatCount) (body rest : List Block) :
    opened (.loop count body :: rest) = opened body ++ opened rest := by
  rw [opened, Block.startsFrom, List.map_append, map_snd_startsFrom, List.map_map]
  rfl

theorem opened_move (direction : Direction) (rest : List Block) :
    opened (.move direction :: rest) = opened rest := by
  rw [opened, Block.startsFrom, map_snd_startsFrom]

theorem opened_eat (rest : List Block) : opened (.eat :: rest) = opened rest := by
  rw [opened, Block.startsFrom, map_snd_startsFrom]

/-- **What a scan finds next is what the first start block of its runs opens**, and the others are
those of the runs that are left. -/
theorem flatMap_opened (pending : List (List Block)) :
    pending.flatMap opened = match next? pending with
      | none => []
      | some (sequence, rest) => sequence :: rest.flatMap opened := by
  fun_induction next? pending with
  | case1 => rfl
  | case2 outer ih => rw [List.flatMap_cons, opened_nil, List.nil_append, ih]
  | case3 after outer => simp only [List.flatMap_cons, opened_start, List.cons_append]
  | case4 count body after outer ih =>
    rw [← ih, List.flatMap_cons, opened_loop, List.flatMap_cons, List.flatMap_cons,
      List.append_assoc]
  | case5 direction after outer ih =>
    rw [← ih, List.flatMap_cons, opened_move, List.flatMap_cons]
  | case6 after outer ih => rw [← ih, List.flatMap_cons, opened_eat, List.flatMap_cons]

/-- **A scan comes to what the start blocks of its runs open**, run after run. -/
theorem toList_eq_flatMap (pending : List (List Block)) :
    toList pending = pending.flatMap opened := by
  fun_induction toList pending with
  | case1 pending h => rw [flatMap_opened, h]
  | case2 pending sequence rest h ih => rw [flatMap_opened, h, ih]

end EntryPoints

/-! ## Programs -/

namespace Program

variable (program : Program)

theorem entryPoints_eq :
    program.entryPoints = (Block.startsFrom 0 program.blocks).map Prod.snd := by
  rw [entryPoints, Block.entryPoints, EntryPoints.toList_eq_flatMap, List.flatMap_singleton]
  rfl

/-- There is an entry point to be found if and only if one is enumerated. -/
theorem hasEntryPoint_iff : program.hasEntryPoint = true ↔ program.entryPoints ≠ [] := by
  rw [hasEntryPoint, entryPoints, Block.entryPoints]
  cases h : EntryPoints.next? [program.blocks] with
  | none => simp [EntryPoints.toList_of_next?_eq_none h]
  | some found => simp [EntryPoints.toList_of_next?_eq_some h]

/-- **The entry points of a program.**  Asking for them comes to an end and gives one sequence for
each start block at any depth, in document order: the one that the start block opens.  So there are
as many as there are start blocks, and a program has one if it has a start block. -/
theorem entryPoints_spec :
    EntryPoints.Yields [program.blocks] program.entryPoints
      ∧ (∃ places : List (List Nat), places.Pairwise (· < ·)
          ∧ (∀ place, place ∈ places ↔ Block.At program.blocks place .start)
          ∧ List.Forall₂ (Block.Opens program.blocks) places program.entryPoints)
      ∧ program.entryPoints.length
          = (Block.preorderAll 0 program.blocks).countP (fun entry => entry.2.isStart)
      ∧ (program.hasEntryPoint = true ↔ ∃ place, Block.At program.blocks place .start) := by
  have hopens : ∀ entry ∈ Block.startsFrom 0 program.blocks,
      Block.Opens program.blocks entry.1 entry.2 := fun entry hentry =>
    @Block.opens_of_mem_startsFrom _ 0 _ entry hentry [] [] [] rfl .top
  have hplaces : ∀ place, place ∈ (Block.startsFrom 0 program.blocks).map Prod.fst
      ↔ Block.At program.blocks place .start := by
    intro place
    refine ⟨fun hmem => ?_, Block.mem_startsFrom_of_at⟩
    obtain ⟨entry, hentry, rfl⟩ := List.mem_map.1 hmem
    exact (hopens entry hentry).at_start
  refine ⟨EntryPoints.yields_iff.2 rfl, ⟨_, (Block.pairwise_startsFrom 0 _).1, hplaces, ?_⟩, ?_, ?_⟩
  · rw [entryPoints_eq, List.forall₂_map_left_iff, List.forall₂_map_right_iff, List.forall₂_same]
    exact hopens
  · rw [entryPoints_eq, List.length_map, Block.length_startsFrom 0 0]
  · rw [hasEntryPoint_iff, entryPoints_eq, ne_eq, List.map_eq_nil_iff]
    constructor
    · intro hne
      obtain ⟨entry, hentry⟩ := List.exists_mem_of_ne_nil _ hne
      exact ⟨entry.1, (hopens entry hentry).at_start⟩
    · rintro ⟨place, hplace⟩ hnil
      have hmem := (hplaces place).2 hplace
      simp [hnil] at hmem

end Program
end BlockScript
