import BlockScript.Block
import Mathlib.Data.List.Basic

/-!
# Places of blocks

The same block may stand in a script many times, so a block that is meant has to be named by where
it stands.  A path leads from the top of a script down through loops into a body, one index for each
loop; a place is a path and then the index of the block in that body.

## What is here

* `Block.BodyAt` — a path leads to a body, through loops with some counts; `Block.BodyAt.unique`
  says that it leads to one body only.
* `Block.At` — a block stands at a place.
* `Block.bodyAt_concat_iff` and `Block.bodyAt_cons_iff` — the last loop of a path, or the first one,
  taken apart from the others.
-/

set_option autoImplicit false
namespace BlockScript
namespace Block

/-- Going down into the loops at the indices of a path leads from some blocks to a body.  The counts
are those of the loops on the way, the outermost first. -/
inductive BodyAt (blocks : List Block) : List Nat → List RepeatCount → List Block → Prop
  | top : BodyAt blocks [] [] blocks
  | inside {path : List Nat} {counts : List RepeatCount} {body inner : List Block} {index : Nat}
      {count : RepeatCount} (h : BodyAt blocks path counts body)
      (hloop : body[index]? = some (.loop count inner)) :
      BodyAt blocks (path ++ [index]) (counts ++ [count]) inner

/-- A block stands at a place: in the body that the path of the place leads to, at its index. -/
def At (blocks : List Block) (place : List Nat) (block : Block) : Prop :=
  ∃ path index counts body, place = path ++ [index] ∧ BodyAt blocks path counts body
    ∧ body[index]? = some block

variable {blocks body : List Block} {path : List Nat} {counts : List RepeatCount} {block : Block}
  {index : Nat}

theorem bodyAt_nil_iff : BodyAt blocks [] counts body ↔ counts = [] ∧ body = blocks := by
  constructor
  · intro h
    generalize hpath : ([] : List Nat) = path at h
    cases h with
    | top => exact ⟨rfl, rfl⟩
    | inside h hloop => simp at hpath
  · rintro ⟨rfl, rfl⟩
    exact .top

/-- The last loop of a path. -/
theorem bodyAt_concat_iff : BodyAt blocks (path ++ [index]) counts body
    ↔ ∃ before count outer, counts = before ++ [count] ∧ BodyAt blocks path before outer
      ∧ outer[index]? = some (.loop count body) := by
  constructor
  · intro h
    generalize hwhole : path ++ [index] = whole at h
    cases h with
    | top => simp at hwhole
    | @inside path' before outer inner index' count h hloop =>
      obtain ⟨rfl, hindex⟩ := List.append_inj' hwhole rfl
      obtain rfl := List.singleton_inj.1 hindex
      exact ⟨before, count, outer, rfl, h, hloop⟩
  · rintro ⟨before, count, outer, rfl, h, hloop⟩
    exact h.inside hloop

/-- The first loop of a path. -/
theorem bodyAt_cons_iff : BodyAt blocks (index :: path) counts body
    ↔ ∃ count inner rest, counts = count :: rest ∧ blocks[index]? = some (.loop count inner)
      ∧ BodyAt inner path rest body := by
  constructor
  · intro h
    generalize hwhole : index :: path = whole at h
    induction h generalizing path with
    | top => simp at hwhole
    | @inside before counts middle body last count h hloop ih =>
      cases before with
      | nil =>
        obtain ⟨rfl, rfl⟩ := List.cons.inj hwhole
        obtain ⟨rfl, rfl⟩ := bodyAt_nil_iff.1 h
        exact ⟨count, body, [], rfl, hloop, .top⟩
      | cons first before =>
        obtain ⟨rfl, rfl⟩ := List.cons.inj hwhole
        obtain ⟨first, inner, rest, rfl, hfirst, hrest⟩ := ih rfl
        exact ⟨first, inner, rest ++ [count], rfl, hfirst, hrest.inside hloop⟩
  · rintro ⟨count, inner, rest, rfl, hloop, h⟩
    induction h with
    | top => exact BodyAt.inside .top hloop
    | inside h hnext ih => exact ih.inside hnext

/-- A path leads to one body only. -/
theorem BodyAt.unique (h : BodyAt blocks path counts body) {counts' : List RepeatCount}
    {body' : List Block} (h' : BodyAt blocks path counts' body') :
    counts = counts' ∧ body = body' := by
  induction h generalizing counts' body' with
  | top =>
    obtain ⟨rfl, rfl⟩ := bodyAt_nil_iff.1 h'
    exact ⟨rfl, rfl⟩
  | inside h hloop ih =>
    obtain ⟨before, count, outer, rfl, h', hloop'⟩ := bodyAt_concat_iff.1 h'
    obtain ⟨rfl, rfl⟩ := ih h'
    obtain ⟨rfl, rfl⟩ := Block.loop.inj (Option.some.inj (hloop.symm.trans hloop'))
    exact ⟨rfl, rfl⟩

/-- A block at an index splits its body. -/
theorem exists_split (h : body[index]? = some block) :
    ∃ before after, body = before ++ block :: after ∧ before.length = index := by
  obtain ⟨hlt, rfl⟩ := List.getElem?_eq_some_iff.1 h
  refine ⟨body.take index, body.drop (index + 1), ?_, List.length_take_of_le (Nat.le_of_lt hlt)⟩
  rw [← List.drop_eq_getElem_cons, List.take_append_drop]

/-! ## Places by their first index -/

theorem not_at_nil : ¬ At blocks [] block := by
  rintro ⟨path, index, counts, body, hplace, -⟩
  simp at hplace

theorem at_singleton_iff : At blocks [index] block ↔ blocks[index]? = some block := by
  constructor
  · rintro ⟨path, last, counts, body, hplace, hbody, hblock⟩
    obtain ⟨rfl, rfl⟩ : path = [] ∧ last = index := by
      simpa [List.cons_eq_append_iff] using hplace
    obtain ⟨rfl, rfl⟩ := bodyAt_nil_iff.1 hbody
    exact hblock
  · exact fun h => ⟨[], index, [], blocks, rfl, .top, h⟩

theorem at_cons_cons_iff {next : Nat} {place : List Nat} : At blocks (index :: next :: place) block
    ↔ ∃ count body, blocks[index]? = some (.loop count body) ∧ At body (next :: place) block := by
  constructor
  · rintro ⟨path, last, counts, body, hplace, hbody, hblock⟩
    cases path with
    | nil => simp at hplace
    | cons first path =>
      obtain ⟨rfl, hrest⟩ := List.cons.inj hplace
      obtain ⟨count, inner, rest, rfl, hloop, hbody⟩ := bodyAt_cons_iff.1 hbody
      exact ⟨count, inner, hloop, path, last, rest, body, hrest, hbody, hblock⟩
  · rintro ⟨count, inner, hloop, path, last, counts, body, hplace, hbody, hblock⟩
    exact ⟨index :: path, last, count :: counts, body, by rw [hplace, List.cons_append],
      bodyAt_cons_iff.2 ⟨count, inner, counts, rfl, hloop, hbody⟩, hblock⟩

end Block
end BlockScript
