import BlockScript.Proofs.Json.Grammar
import BlockScript.Proofs.Json.Values

/-!
# Passing over values

A value that nobody asks for is passed over.  The reader then keeps a list of the lists and objects
that it is in, instead of calling itself, and looks only at the form of what it passes.  So it comes
to the end of every value of the right form, however deep that is, whatever its numbers are and
whatever its strings hold.

## What is here

* `Json.Leads` — from one text inside some lists and objects the reader comes to another text,
  inside the same ones or fewer.
* `Json.Passes` — what the reader does with each part of a document; `Json.passes` proves it for
  every part that is well formed.
* `Json.reads_skipValue` — **a well-formed value is passed over**, up to what follows it.
-/

set_option autoImplicit false
namespace BlockScript.Json

/-! ## Numbers -/

/-- A reader passes over the start of a text and leaves the rest. -/
def SkipsTo {text : List UInt8} (result : Except Fault (Tail text)) (rest : List UInt8) : Prop :=
  ∃ le, result = .ok ⟨rest, le⟩

theorem skipsTo_ok {text rest : List UInt8} (tail : Tail text) (h : tail.val = rest) :
    SkipsTo (.ok tail) rest := by
  subst h
  exact ⟨tail.property, rfl⟩

theorem SkipsTo.of {part text rest : List UInt8} {result : Except Fault (Tail part)}
    (h : SkipsTo result rest) (hpart : part.length ≤ text.length) :
    SkipsTo (result.map fun after => after.of hpart) rest := by
  obtain ⟨le, rfl⟩ := h
  exact ⟨Nat.le_trans le hpart, rfl⟩

section Numbers

variable {text : List Char} {back : List UInt8}

theorem IsDigits.startsWithDigit (h : IsDigits text) (back : List UInt8) :
    startsWithDigit (text.map ascii ++ back) = true :=
  startsWithDigit_map_ascii h.ne_nil h.isDigit

theorem takeSign_digits {sign : List Char} (hsign : sign ∈ [[], ['+'], ['-']])
    (htext : IsDigits text) (back : List UInt8) :
    (takeSign ((sign ++ text).map ascii ++ back)).2.val = text.map ascii ++ back := by
  simp only [List.mem_cons, List.not_mem_nil, or_false] at hsign
  rcases hsign with rfl | rfl | rfl
  · cases text with
    | nil => exact absurd rfl htext.ne_nil
    | cons c text =>
      have hc := isDigit_ascii (htext.isDigit c List.mem_cons_self)
      rw [List.nil_append, List.map_cons, List.cons_append, takeSign,
        if_neg (ne_of_isDigit hc (by decide)), if_neg (ne_of_isDigit hc (by decide))]
      rfl
  · rfl
  · rfl

theorem skipsTo_skipExponent {sign : List Char} (hsign : sign ∈ [[], ['+'], ['-']])
    (htext : IsDigits text) (hback : Json.startsWithDigit back = false) :
    SkipsTo (skipExponent ((sign ++ text).map ascii ++ back)) back := by
  have hdigits := takeSign_digits hsign htext back
  have hstarts := htext.startsWithDigit back
  have hdrop := dropDigits_map_ascii htext.isDigit hback
  rw [← hdigits] at hstarts hdrop
  rw [skipExponent]
  simp only [hstarts, if_true]
  exact skipsTo_ok _ hdrop

theorem skipsTo_skipScale (h : IsExponent text) (hback : Ends back) :
    SkipsTo (skipScale (text.map ascii ++ back)) back := by
  cases h with
  | none =>
    rw [List.map_nil, List.nil_append, skipScale, startsWithExponent_of_ends hback,
      if_neg Bool.false_ne_true]
    exact skipsTo_ok _ rfl
  | @digits letter sign text hletter hsign hdigits =>
    have hstarts : startsWithExponent ((letter :: (sign ++ text)).map ascii ++ back) = true := by
      simp only [List.mem_cons, List.not_mem_nil, or_false] at hletter
      rcases hletter with rfl | rfl <;> rfl
    rw [skipScale, if_pos hstarts]
    exact (skipsTo_skipExponent hsign hdigits hback.digit).of _

/-- Where no point comes next, an exponent may. -/
theorem skipAfterWhole_of_ne {text : List UInt8} (h : ∀ b ∈ text.head?, b ≠ ascii '.') :
    skipAfterWhole text = skipScale text := by
  cases text with
  | nil => rfl
  | cons b text => rw [skipAfterWhole, if_neg (h b rfl)]

theorem IsExponent.startsWithDigit (h : IsExponent text) (hback : Ends back) :
    Json.startsWithDigit (text.map ascii ++ back) = false := by
  cases h with
  | none => exact hback.digit
  | digits hletter hsign hdigits =>
    simp only [List.mem_cons, List.not_mem_nil, or_false] at hletter
    rcases hletter with rfl | rfl <;> rfl

theorem skipsTo_skipAfterWhole {fraction exponent : List Char} (hfraction : IsFraction fraction)
    (hexponent : IsExponent exponent) (hback : Ends back) :
    SkipsTo (skipAfterWhole (fraction.map ascii ++ (exponent.map ascii ++ back))) back := by
  have hscale := skipsTo_skipScale hexponent hback
  cases hfraction with
  | none =>
    rw [List.map_nil, List.nil_append, skipAfterWhole_of_ne ?_]
    · exact hscale
    · intro b hb
      cases hexponent with
      | none => exact hback.ne_point b hb
      | digits hletter hsign hdigits =>
        obtain rfl := Option.some.inj hb
        simp only [List.mem_cons, List.not_mem_nil, or_false] at hletter
        rcases hletter with rfl | rfl <;> decide
  | @digits text hdigits =>
    have hdrop := dropDigits_map_ascii hdigits.isDigit (hexponent.startsWithDigit hback)
    have hstarts := hdigits.startsWithDigit (exponent.map ascii ++ back)
    rw [List.map_cons, List.cons_append, skipAfterWhole, if_pos rfl, if_pos hstarts]
    rw [← hdrop] at hscale
    exact hscale.of _

theorem reads_skipNumber {whole fraction exponent : List Char} (hwhole : IsWhole whole)
    (hfraction : IsFraction fraction) (hexponent : IsExponent exponent) (hback : Ends back) :
    Reads (skipNumber (whole.map ascii ++ (fraction.map ascii ++ (exponent.map ascii ++ back)))) ()
      back := by
  have hafter := skipsTo_skipAfterWhole hfraction hexponent hback
  have hends :
      Json.startsWithDigit (fraction.map ascii ++ (exponent.map ascii ++ back)) = false := by
    cases hfraction with
    | none => exact hexponent.startsWithDigit hback
    | digits hdigits => rfl
  cases hwhole with
  | zero =>
    obtain ⟨le, hskip⟩ := hafter
    rw [List.map_cons, List.cons_append, List.map_nil, List.nil_append]
    refine ⟨Nat.lt_succ_of_le le, ?_⟩
    rw [skipNumber, if_pos rfl, if_neg (by simp [hends]), hskip]
    rfl
  | @digits c text hne hdigits =>
    obtain ⟨hc, htext⟩ := List.forall_mem_cons.1 hdigits.isDigit
    have hascii : c.toNat < 256 := Nat.lt_trans (lt_of_isDigit hc) (by decide)
    have hfirst : ascii c ≠ ascii '0' := fun heq => hne (ascii_inj hascii (by decide) heq)
    have hdrop := dropDigits_map_ascii htext hends
    rw [← hdrop] at hafter
    obtain ⟨le, hskip⟩ := hafter
    rw [List.map_cons, List.cons_append]
    refine ⟨Nat.lt_succ_of_le (Nat.le_trans le (dropDigits _).property), ?_⟩
    rw [skipNumber, if_neg hfirst, if_pos (isDigit_ascii hc)]
    simp only [hskip]
    rfl

end Numbers

/-! ## Strings -/

section Strings

variable {whole back : List UInt8}

theorem IsHexDigit.hexDigit?_eq {c : Char} (h : IsHexDigit c) :
    c.toNat < 128 ∧ hexDigit? (ascii c) = some (hexValue c) := by
  have hall : ['0', '1', '2', '3', '4', '5', '6', '7', '8', '9', 'a', 'b', 'c', 'd', 'e', 'f', 'A',
      'B', 'C', 'D', 'E', 'F'].Forall fun c =>
        c.toNat < 128 ∧ hexDigit? (ascii c) = some (hexValue c) := by decide
  exact List.forall_iff_forall_mem.1 hall c h

/-- Four digits are read as their value. -/
theorem reads_readHex_digits {n : Nat} {digits : List Char} (h : HexDigits n digits)
    (back : List UInt8) :
    Reads (readHex (bytes digits ++ back)) n back := by
  cases h with
  | @digits a b c d ha hb hc hd hvalue =>
    obtain ⟨hasciiA, ha⟩ := ha.hexDigit?_eq
    obtain ⟨hasciiB, hb⟩ := hb.hexDigit?_eq
    obtain ⟨hasciiC, hc⟩ := hc.hexDigit?_eq
    obtain ⟨hasciiD, hd⟩ := hd.hexDigit?_eq
    rw [bytes_cons_of_lt hasciiA, bytes_cons_of_lt hasciiB, bytes_cons_of_lt hasciiC,
      bytes_cons_of_lt hasciiD, bytes_nil]
    refine ⟨by simp only [List.cons_append, List.nil_append, List.length_cons]; omega, ?_⟩
    simp only [List.cons_append, List.nil_append]
    rw [readHex, ha, hb, hc, hd]
    simp only [hvalue]

theorem skipBytes_plains {plains : List UInt8} (hplain : ∀ b ∈ plains, Plain b)
    {text : List UInt8} (h : (plains ++ text).length ≤ whole.length)
    (htext : text.length ≤ whole.length) : skipBytes (plains ++ text) h = skipBytes text htext := by
  induction plains with
  | nil => rfl
  | cons b plains ih =>
    obtain ⟨hb, hothers⟩ := List.forall_mem_cons.1 hplain
    have hshort : (plains ++ text).length ≤ whole.length := by
      simp only [List.cons_append, List.length_cons] at h
      omega
    revert h
    rw [List.cons_append]
    intro h
    rw [skipBytes, if_neg hb.ne_quote, if_neg hb.ne_backslash, if_neg hb.not_control]
    exact ih hothers hshort

/-- **The text of a string is passed over** up to its closing quote. -/
theorem reads_skipBytes {body : List Char} (hbody : IsBody body)
    (h : (bytes body ++ ascii '\x22' :: back).length ≤ whole.length) :
    Reads (skipBytes (bytes body ++ ascii '\x22' :: back) h) () back := by
  induction hbody with
  | nil =>
    have hclose : (ascii '\x22' :: back).length ≤ whole.length := h
    have hskip : Reads (skipBytes (ascii '\x22' :: back) hclose) () back := by
      refine ⟨hclose, ?_⟩
      rw [skipBytes, if_pos rfl]
    exact hskip
  | @plain c rest hplain hrest ih =>
    revert h
    rw [bytes_cons, List.append_assoc]
    intro h
    have hshort : (bytes rest ++ ascii '\x22' :: back).length ≤ whole.length := by
      rw [List.length_append] at h
      omega
    rw [skipBytes_plains hplain.plain_bytes h hshort]
    exact ih hshort
  | @letter letter rest hletter hrest ih =>
    have hall : (escapes.map Prod.fst).Forall fun letter => letter.toNat < 128
        ∧ ascii letter ≠ ascii 'u' ∧ (escaped? (ascii letter)).isSome = true := by decide
    obtain ⟨hascii, hu, hescaped⟩ := List.forall_iff_forall_mem.1 hall letter hletter
    revert h
    rw [bytes_cons_of_lt (by decide), bytes_cons_of_lt hascii]
    intro h
    have hshort : (bytes rest ++ ascii '\x22' :: back).length ≤ whole.length := by
      simp only [List.cons_append, List.length_cons] at h
      omega
    have hskip := ih hshort
    simp only [List.cons_append] at h ⊢
    rw [skipBytes, if_neg (by decide), if_pos rfl]
    simp only [if_neg hu, if_pos hescaped]
    exact hskip
  | @code a b c d rest ha hb hc hd hrest ih =>
    have hbytes : bytes ('\\' :: 'u' :: a :: b :: c :: d :: rest) ++ ascii '\x22' :: back
        = ascii '\\' :: ascii 'u'
          :: (bytes [a, b, c, d] ++ (bytes rest ++ ascii '\x22' :: back)) := by
      rw [bytes_cons_of_lt (by decide), bytes_cons_of_lt (by decide), ← List.append_assoc,
        ← bytes_append]
      rfl
    have hhex : Reads (readHex (bytes [a, b, c, d] ++ (bytes rest ++ ascii '\x22' :: back))) _ _ :=
      reads_readHex_digits (.digits ha hb hc hd rfl) _
    obtain ⟨shorter, hread⟩ := hhex
    revert h
    rw [hbytes]
    intro h
    have hshort : (bytes rest ++ ascii '\x22' :: back).length ≤ whole.length := by
      simp only [List.length_cons] at h
      omega
    have hskip := ih hshort
    rw [skipBytes, if_neg (by decide), if_pos rfl]
    simp only [if_true, hread]
    exact hskip

end Strings

/-! ## Scalars -/

/-- A scalar is passed over: its first byte begins neither a list nor an object and closes none, and
it is skipped up to another text. -/
def ScalarPassed (text after : List UInt8) : Prop :=
  ∃ b rest, text = b :: rest ∧ Opens b ∧ b ≠ ascii '[' ∧ b ≠ ascii '\x7b' ∧
    SkipsTo (skipScalar b rest) after

section Scalars

variable {text back : List Char}

theorem IsDigits.bytes_eq (h : IsDigits text) : bytes text = text.map ascii :=
  bytes_of_lt fun c hc => lt_of_isDigit (h.isDigit c hc)

theorem IsWhole.bytes_eq (h : IsWhole text) : bytes text = text.map ascii := by
  cases h with
  | zero => rfl
  | digits hne hdigits => exact hdigits.bytes_eq

theorem IsFraction.bytes_eq (h : IsFraction text) : bytes text = text.map ascii := by
  cases h with
  | none => rfl
  | digits hdigits =>
    rw [bytes_cons_of_lt (by decide), hdigits.bytes_eq]
    rfl

theorem IsExponent.bytes_eq (h : IsExponent text) : bytes text = text.map ascii := by
  cases h with
  | none => rfl
  | @digits letter sign text hletter hsign hdigits =>
    have hletters : ['e', 'E'].Forall fun c => c.toNat < 128 := by decide
    have hsigns : [[], ['+'], ['-']].Forall fun sign => bytes sign = sign.map ascii :=
      ⟨rfl, rfl, rfl⟩
    rw [bytes_cons_of_lt (List.forall_iff_forall_mem.1 hletters letter hletter), bytes_append,
      List.forall_iff_forall_mem.1 hsigns sign hsign, hdigits.bytes_eq, List.map_cons,
      List.map_append]

theorem IsWhole.exists_digit (h : IsWhole text) :
    ∃ c more, text = c :: more ∧ c.isDigit = true := by
  cases h with
  | zero => exact ⟨'0', [], rfl, rfl⟩
  | @digits c text hne hdigits => exact ⟨c, text, rfl, hdigits.isDigit c List.mem_cons_self⟩

theorem scalarPassed_of_digit {b : UInt8} {rest after : List UInt8} (hb : isDigit b = true)
    (h : Reads (skipNumber (b :: rest)) () after) : ScalarPassed (b :: rest) after := by
  have hne : ∀ other, isDigit other = false → b ≠ other := fun _ hother => ne_of_isDigit hb hother
  obtain ⟨shorter, hskip⟩ := h
  refine ⟨b, rest, rfl, opens_of_isDigit hb, hne _ (by decide), hne _ (by decide),
    Nat.le_of_lt_succ shorter, ?_⟩
  rw [skipScalar, if_neg (hne _ (by decide)), if_neg (hne _ (by decide)),
    if_neg (hne _ (by decide)), if_neg (hne _ (by decide)), if_neg (hne _ (by decide)), if_pos hb,
    hskip]
  rfl

theorem scalarPassed_of_minus {rest after : List UInt8} (h : Reads (skipNumber rest) () after) :
    ScalarPassed (ascii '-' :: rest) after := by
  obtain ⟨shorter, hskip⟩ := h
  refine ⟨_, rest, rfl, ⟨by decide, by decide⟩, by decide, by decide, Nat.le_of_lt shorter, ?_⟩
  rw [skipScalar, if_neg (by decide), if_neg (by decide), if_neg (by decide), if_neg (by decide),
    if_pos rfl, hskip]
  rfl

theorem scalarPassed_number (h : IsNumber text) (hback : Ends (bytes back)) :
    ScalarPassed (bytes (text ++ back)) (bytes back) := by
  cases h with
  | @parts sign whole fraction exponent hsign hwhole hfraction hexponent =>
    have hbytes : bytes (whole ++ (fraction ++ exponent) ++ back) = whole.map ascii
        ++ (fraction.map ascii ++ (exponent.map ascii ++ bytes back)) := by
      simp only [bytes_append, hwhole.bytes_eq, hfraction.bytes_eq, hexponent.bytes_eq,
        List.append_assoc]
    have hread := reads_skipNumber hwhole hfraction hexponent hback
    simp only [List.mem_cons, List.not_mem_nil, or_false] at hsign
    rcases hsign with rfl | rfl
    · obtain ⟨c, more, rfl, hc⟩ := hwhole.exists_digit
      rw [List.nil_append, hbytes]
      exact scalarPassed_of_digit (isDigit_ascii hc) hread
    · rw [← hbytes] at hread
      rw [List.append_assoc, List.singleton_append, bytes_cons_of_lt (by decide)]
      exact scalarPassed_of_minus hread

/-- What is inside of brackets or quotes comes after the first one. -/
theorem bytes_bracketed {opening : Char} (h : opening.toNat < 128) (inside : List Char)
    (closing : Char) (back : List Char) :
    bytes (opening :: (inside ++ [closing]) ++ back)
      = ascii opening :: bytes (inside ++ closing :: back) := by
  rw [List.cons_append, bytes_cons_of_lt h, List.append_assoc, List.singleton_append]

theorem scalarPassed_string {body : List Char} (h : IsBody body) :
    ScalarPassed (bytes ('\x22' :: (body ++ ['\x22']) ++ back)) (bytes back) := by
  have hbytes : bytes ('\x22' :: (body ++ ['\x22']) ++ back)
      = ascii '\x22' :: (bytes body ++ ascii '\x22' :: bytes back) := by
    rw [bytes_bracketed (by decide), bytes_append, bytes_cons_of_lt (by decide)]
  obtain ⟨shorter, hskip⟩ := reads_skipBytes h (length_le_self _)
  refine ⟨_, _, hbytes, ⟨by decide, by decide⟩, by decide, by decide, Nat.le_of_lt shorter, ?_⟩
  rw [skipScalar, if_neg (by decide), if_neg (by decide), if_neg (by decide), if_pos rfl,
    skipString, hskip]
  rfl

theorem scalarPassed_word
    (h : text ∈ [['n', 'u', 'l', 'l'], ['t', 'r', 'u', 'e'], ['f', 'a', 'l', 's', 'e']]) :
    ScalarPassed (bytes (text ++ back)) (bytes back) := by
  have hascii : [['n', 'u', 'l', 'l'], ['t', 'r', 'u', 'e'], ['f', 'a', 'l', 's', 'e']].Forall
      fun text => bytes text = text.map ascii := ⟨rfl, rfl, rfl⟩
  rw [bytes_append, List.forall_iff_forall_mem.1 hascii text h]
  simp only [List.mem_cons, List.not_mem_nil, or_false] at h
  rcases h with rfl | rfl | rfl
  · refine ⟨_, _, rfl, ⟨by decide, by decide⟩, by decide, by decide, ?_⟩
    rw [skipScalar, if_pos rfl]
    exact expectTail_map_ascii ['u', 'l', 'l'] (bytes back)
  · refine ⟨_, _, rfl, ⟨by decide, by decide⟩, by decide, by decide, ?_⟩
    rw [skipScalar, if_neg (by decide), if_pos rfl]
    exact expectTail_map_ascii ['r', 'u', 'e'] (bytes back)
  · refine ⟨_, _, rfl, ⟨by decide, by decide⟩, by decide, by decide, ?_⟩
    rw [skipScalar, if_neg (by decide), if_neg (by decide), if_pos rfl]
    exact expectTail_map_ascii ['a', 'l', 's', 'e'] (bytes back)

end Scalars

/-! ## Brackets -/

namespace Bracket

/-- The byte that opens a list or an object. -/
def opening : Bracket → UInt8
  | list => ascii '['
  | object => ascii '\x7b'

/-- The byte that closes a list or an object. -/
def closing : Bracket → UInt8
  | list => ascii ']'
  | object => ascii '\x7d'

/-- What comes before a value in a list or an object is passed over: nothing, or the key. -/
def Enters : Bracket → List UInt8 → List UInt8 → Prop
  | list, start, next => next = start
  | object, start, next => Reads (skipKey start) () next

end Bracket

/-- From a text inside some lists and objects, the innermost first, the reader comes to another one,
where a value has been passed and other lists and objects are open. -/
def Leads (inner : List Bracket) (start : List UInt8) (outer : List Bracket)
    (after : List UInt8) : Prop :=
  ∀ (whole : List UInt8) (h : start.length ≤ whole.length),
    ∃ hafter : after.length < whole.length, skipInto inner start h = skipOut true outer after hafter

section Brackets

variable {whole start rest next after : List UInt8} {b : UInt8} {bracket : Bracket}
  {inner around : List Bracket}

theorem leads_scalar (hscalar : ScalarPassed (skipBlanks start) after) (around : List Bracket) :
    Leads around start around after := by
  intro whole h
  obtain ⟨b, rest, hstart, -, hlist, hobject, le, hskip⟩ := hscalar
  have hrest := length_lt_of_skipBlanks hstart
  refine ⟨by omega, ?_⟩
  rw [skipInto.eq_def]
  split
  case h_1 hnil => exact absurd (hstart.symm.trans hnil) (List.cons_ne_nil _ _)
  case h_2 c other hcons =>
    obtain ⟨rfl, rfl⟩ := List.cons.inj (hstart.symm.trans hcons)
    rw [if_neg hlist, if_neg hobject]
    simp only [hskip]

theorem skipInto_open (hstart : skipBlanks start = bracket.opening :: rest)
    (around : List Bracket) (h : start.length ≤ whole.length) :
    ∃ hrest : rest.length < whole.length,
      skipInto around start h = skipOut false (bracket :: around) rest hrest := by
  have hshort := length_lt_of_skipBlanks hstart
  refine ⟨by omega, ?_⟩
  rw [skipInto.eq_def]
  split
  case h_1 hnil => exact absurd (hstart.symm.trans hnil) (List.cons_ne_nil _ _)
  case h_2 c other hcons =>
    obtain ⟨rfl, rfl⟩ := List.cons.inj (hstart.symm.trans hcons)
    cases bracket with
    | list => exact if_pos rfl
    | object => exact (if_neg (by decide)).trans (if_pos rfl)

theorem skipOut_close (hstart : skipBlanks start = bracket.closing :: rest) (comma : Bool)
    (around : List Bracket) (h : start.length < whole.length) :
    ∃ hrest, skipOut comma (bracket :: around) start h = skipOut true around rest hrest := by
  have hshort := length_lt_of_skipBlanks hstart
  refine ⟨by omega, ?_⟩
  rw [skipOut]
  split
  case h_1 hnil => exact absurd (hstart.symm.trans hnil) (List.cons_ne_nil _ _)
  case h_2 c other hcons =>
    obtain ⟨rfl, rfl⟩ := List.cons.inj (hstart.symm.trans hcons)
    cases bracket with
    | list => exact if_pos (.inl ⟨rfl, rfl⟩)
    | object => exact if_pos (.inr ⟨rfl, rfl⟩)

/-- The next value is passed over, after a comma if it is not the first one. -/
theorem skipOut_next {comma : Bool} (hstart : skipBlanks start = b :: rest)
    (hopen : b ≠ bracket.closing) (hcomma : comma = true → b = ascii ',')
    (henter : bracket.Enters (if comma then rest else b :: rest) next) (around : List Bracket)
    (h : start.length < whole.length) :
    ∃ hnext : next.length ≤ whole.length,
      skipOut comma (bracket :: around) start h = skipInto (bracket :: around) next hnext := by
  have hshort := length_le_of_skipBlanks hstart
  have hlength : (if comma then rest else b :: rest).length ≤ start.length := by
    rw [List.length_cons] at hshort
    split
    · omega
    · rwa [List.length_cons]
  have hbracket :
      ¬ ((b = ascii ']' ∧ bracket = .list) ∨ (b = ascii '\x7d' ∧ bracket = .object)) := by
    rintro (⟨rfl, rfl⟩ | ⟨rfl, rfl⟩)
    · exact hopen rfl
    · exact hopen rfl
  have hgoOn : ¬ (comma = true ∧ b ≠ ascii ',') := fun hboth => hboth.2 (hcomma hboth.1)
  rw [skipOut]
  split
  case h_1 hnil => exact absurd (hstart.symm.trans hnil) (List.cons_ne_nil _ _)
  case h_2 c other hcons =>
    obtain ⟨rfl, rfl⟩ := List.cons.inj (hstart.symm.trans hcons)
    rw [if_neg hbracket]
    simp only [if_neg hgoOn]
    cases bracket with
    | list =>
      obtain rfl := henter
      exact ⟨by omega, rfl⟩
    | object =>
      obtain ⟨shorter, hkey⟩ := henter
      refine ⟨by omega, ?_⟩
      simp only [hkey]

/-- A list or an object without anything in it is passed over. -/
theorem leads_empty (hstart : skipBlanks start = bracket.opening :: rest)
    (hclose : skipBlanks rest = bracket.closing :: after) (around : List Bracket) :
    Leads around start around after := by
  intro whole h
  obtain ⟨hrest, hopen⟩ := skipInto_open hstart around h
  obtain ⟨hafter, hclosed⟩ := skipOut_close hclose false around hrest
  exact ⟨hafter, hopen.trans hclosed⟩

/-- A list or an object is passed over if its first value leads out of it. -/
theorem leads_bracket {first : List UInt8} (hstart : skipBlanks start = bracket.opening :: rest)
    (hfirst : skipBlanks rest = b :: first) (hopen : b ≠ bracket.closing)
    (henter : bracket.Enters (b :: first) next)
    (hleads : Leads (bracket :: around) next around after) : Leads around start around after := by
  intro whole h
  obtain ⟨hrest, hstart⟩ := skipInto_open hstart around h
  have hcomma : false = true → b = ascii ',' := nofun
  obtain ⟨hnext, hgoOn⟩ := skipOut_next hfirst hopen hcomma henter around hrest
  obtain ⟨hafter, hlast⟩ := hleads whole hnext
  exact ⟨hafter, hstart.trans (hgoOn.trans hlast)⟩

/-- After a value and a comma comes the next value. -/
theorem Leads.comma (h : Leads inner start (bracket :: around) after)
    (hcomma : skipBlanks after = ascii ',' :: rest) (henter : bracket.Enters rest next)
    {outer : List Bracket} {last : List UInt8}
    (hleads : Leads (bracket :: around) next outer last) : Leads inner start outer last := by
  have hopen : ascii ',' ≠ bracket.closing := by cases bracket <;> decide
  intro whole hle
  obtain ⟨hafter, hfirst⟩ := h whole hle
  have hsame : true = true → ascii ',' = ascii ',' := fun _ => rfl
  obtain ⟨hnext, hgoOn⟩ := skipOut_next hcomma hopen hsame henter around hafter
  obtain ⟨hlast, hmore⟩ := hleads whole hnext
  exact ⟨hlast, hfirst.trans (hgoOn.trans hmore)⟩

/-- After the last value the list or the object is closed. -/
theorem Leads.close (h : Leads inner start (bracket :: around) after)
    (hclose : skipBlanks after = bracket.closing :: rest) : Leads inner start around rest := by
  intro whole hle
  obtain ⟨hafter, hfirst⟩ := h whole hle
  obtain ⟨hrest, hclosed⟩ := skipOut_close hclose true around hafter
  exact ⟨hrest, hfirst.trans hclosed⟩

end Brackets

/-! ## Parts of documents -/

/-- What the reader does with a part of a document that stands before some other text.  A value is
passed over wherever it stands.  Of a list or an object, what is inside leads out of it. -/
def Passes : Shape → List Char → Prop
  | .value, text => ∀ {start : List UInt8} {back : List Char},
    skipBlanks start = bytes (text ++ back) → Ends (bytes back) →
    ∀ around, Leads around start around (bytes back)
  | .element, text => ∀ {start : List UInt8} {back : List Char},
    skipBlanks start = skipBlanks (bytes (text ++ back)) → Closes back →
    ∀ around, ∃ after, skipBlanks after = skipBlanks (bytes back) ∧ Leads around start around after
  | .elements, text => ∀ {start : List UInt8} {back : List Char},
    skipBlanks start = skipBlanks (bytes (text ++ ']' :: back)) →
    ∀ around, Leads (.list :: around) start around (bytes back)
  | .member, text => ∀ {start : List UInt8} {back : List Char},
    skipBlanks start = skipBlanks (bytes (text ++ back)) → Closes back →
    ∀ around, ∃ next after, Reads (skipKey start) () next
      ∧ skipBlanks after = skipBlanks (bytes back) ∧ Leads around next around after
  | .members, text => ∀ {start : List UInt8} {back : List Char},
    skipBlanks start = skipBlanks (bytes (text ++ '\x7d' :: back)) →
    ∀ around, ∃ next, Reads (skipKey start) () next
      ∧ Leads (.object :: around) next around (bytes back)

section Parts

variable {text : List Char}

theorem skipBlanks_skipBlanks (text : List UInt8) :
    skipBlanks (skipBlanks text) = skipBlanks text := by
  induction text with
  | nil => rfl
  | cons b text ih =>
    cases hb : isBlank b with
    | true => simpa [skipBlanks, hb] using ih
    | false => rw [skipBlanks_of_not_isBlank hb, skipBlanks_of_not_isBlank hb]

/-- Every value begins with a byte that opens it. -/
theorem WellFormed.opensAt (h : WellFormed .value text) (back : List Char) :
    OpensAt (bytes (text ++ back)) := by
  have hof : ∀ {after : List UInt8}, ScalarPassed (bytes (text ++ [])) after →
      OpensAt (bytes (text ++ back)) := by
    rintro after ⟨b, rest, htext, hopens, -⟩
    rw [List.append_nil] at htext
    exact ⟨b, rest ++ bytes back, by rw [bytes_append, htext, List.cons_append], hopens⟩
  cases h with
  | word h => exact hof (scalarPassed_word h)
  | number h => exact hof (scalarPassed_number h ⟨rfl, rfl⟩)
  | string h => exact hof (scalarPassed_string h)
  | emptyList h => exact ⟨_, _, bytes_cons_of_lt (by decide) _, by decide, by decide⟩
  | list h => exact ⟨_, _, bytes_cons_of_lt (by decide) _, by decide, by decide⟩
  | emptyObject h => exact ⟨_, _, bytes_cons_of_lt (by decide) _, by decide, by decide⟩
  | object h => exact ⟨_, _, bytes_cons_of_lt (by decide) _, by decide, by decide⟩

/-- Elements begin like the first value among them. -/
theorem WellFormed.opensAt_skipBlanks (h : WellFormed .elements text) (back : List Char) :
    OpensAt (skipBlanks (bytes (text ++ back))) := by
  have helement : ∀ {item : List Char}, WellFormed .element item → ∀ back,
      OpensAt (skipBlanks (bytes (item ++ back))) := by
    intro item hitem back
    cases hitem with
    | @padded ahead value behind hahead hvalue hbehind =>
      rw [List.append_assoc, hahead.skipBlanks_append, List.append_assoc,
        (hvalue.opensAt _).skipBlanks_eq]
      exact hvalue.opensAt _
  cases h with
  | lastElement hitem => exact helement hitem back
  | elements hitem hitems =>
    rw [List.append_assoc]
    exact helement hitem _

/-- Members begin with the quote of a key. -/
theorem WellFormed.exists_quote (h : WellFormed .members text) (back : List Char) :
    ∃ rest, skipBlanks (bytes (text ++ back)) = ascii '\x22' :: rest := by
  have hmember : ∀ {field : List Char}, WellFormed .member field → ∀ back,
      ∃ rest, skipBlanks (bytes (field ++ back)) = ascii '\x22' :: rest := by
    intro field hfield back
    cases hfield with
    | @member ahead body behind item hahead hbody hbehind hitem =>
      rw [List.append_assoc, hahead.skipBlanks_append, List.cons_append,
        bytes_cons_of_lt (by decide)]
      exact ⟨_, skipBlanks_of_not_isBlank (by decide) _⟩
  cases h with
  | lastMember hfield => exact hmember hfield back
  | members hfield hfields =>
    rw [List.append_assoc]
    exact hmember hfield _

/-- A byte that is no white space comes first, even after white space. -/
theorem skipBlanks_bytes_cons {c : Char} (hascii : c.toNat < 128)
    (hblank : isBlank (ascii c) = false) (rest : List Char) :
    skipBlanks (bytes (c :: rest)) = ascii c :: bytes rest := by
  rw [bytes_cons_of_lt hascii, skipBlanks_of_not_isBlank hblank]

/-- A key and its colon are passed over. -/
theorem reads_skipKey {start : List UInt8} {body behind rest : List Char} (hbody : IsBody body)
    (hbehind : IsBlanks behind)
    (hstart : skipBlanks start
      = ascii '\x22' :: bytes (body ++ '\x22' :: (behind ++ ':' :: rest))) :
    Reads (skipKey start) () (bytes rest) := by
  have hbytes : bytes (body ++ '\x22' :: (behind ++ ':' :: rest))
      = bytes body ++ ascii '\x22' :: bytes (behind ++ ':' :: rest) := by
    rw [bytes_append, bytes_cons_of_lt (by decide)]
  have hcolon : skipBlanks (bytes (behind ++ ':' :: rest)) = ascii ':' :: bytes rest := by
    rw [hbehind.skipBlanks_append]
    exact skipBlanks_bytes_cons (by decide) (by decide) rest
  obtain ⟨hkey, hskip⟩ := reads_skipBytes hbody
    (length_le_self (bytes body ++ ascii '\x22' :: bytes (behind ++ ':' :: rest)))
  obtain ⟨hrest, hcolon⟩ := reads_colon hcolon
  rw [hbytes] at hstart
  have hshort := length_lt_of_skipBlanks hstart
  refine ⟨by omega, ?_⟩
  rw [skipKey]
  split
  case h_1 hnil => exact absurd (hstart.symm.trans hnil) (List.cons_ne_nil _ _)
  case h_2 c other hcons =>
    obtain ⟨rfl, rfl⟩ := List.cons.inj (hstart.symm.trans hcons)
    rw [if_pos rfl]
    simp only [skipString, hskip, hcolon]
    rfl

/-- **The reader comes to the end of every part of a document.** -/
theorem passes {shape : Shape} (h : WellFormed shape text) : Passes shape text := by
  induction h with
  | word h =>
    intro start back hstart hback around
    exact leads_scalar (hstart ▸ scalarPassed_word h) around
  | number h =>
    intro start back hstart hback around
    exact leads_scalar (hstart ▸ scalarPassed_number h hback) around
  | string h =>
    intro start back hstart hback around
    exact leads_scalar (hstart ▸ scalarPassed_string h) around
  | @emptyList gap h =>
    intro start back hstart hback around
    have hopen : skipBlanks start = Bracket.list.opening :: _ :=
      hstart.trans (bytes_bracketed (by decide) _ _ back)
    refine leads_empty hopen ?_ around
    rw [h.skipBlanks_append]
    exact skipBlanks_bytes_cons (by decide) (by decide) back
  | @list items h ih =>
    intro start back hstart hback around
    have hopen : skipBlanks start = Bracket.list.opening :: _ :=
      hstart.trans (bytes_bracketed (by decide) _ _ back)
    obtain ⟨b, rest, hitems, hopens⟩ := h.opensAt_skipBlanks (']' :: back)
    have hfirst : skipBlanks (b :: rest) = skipBlanks (bytes (items ++ ']' :: back)) := by
      rw [← hitems, skipBlanks_skipBlanks]
    exact leads_bracket hopen hitems hopens.ne_close rfl (ih hfirst around)
  | @emptyObject gap h =>
    intro start back hstart hback around
    have hopen : skipBlanks start = Bracket.object.opening :: _ :=
      hstart.trans (bytes_bracketed (by decide) _ _ back)
    refine leads_empty hopen ?_ around
    rw [h.skipBlanks_append]
    exact skipBlanks_bytes_cons (by decide) (by decide) back
  | @object fields h ih =>
    intro start back hstart hback around
    have hopen : skipBlanks start = Bracket.object.opening :: _ :=
      hstart.trans (bytes_bracketed (by decide) _ _ back)
    obtain ⟨rest, hfields⟩ := h.exists_quote ('\x7d' :: back)
    have hfirst : skipBlanks (ascii '\x22' :: rest)
        = skipBlanks (bytes (fields ++ '\x7d' :: back)) := by
      rw [← hfields, skipBlanks_skipBlanks]
    obtain ⟨next, hkey, hleads⟩ := ih hfirst around
    have henter : Bracket.object.Enters (ascii '\x22' :: rest) next := hkey
    exact leads_bracket hopen hfields (by decide) henter hleads
  | @padded ahead value behind hahead hvalue hbehind ih =>
    intro start back hstart hback around
    rw [List.append_assoc, hahead.skipBlanks_append, List.append_assoc,
      (hvalue.opensAt _).skipBlanks_eq] at hstart
    exact ⟨_, hbehind.skipBlanks_append back, ih hstart (hback.append hbehind).ends around⟩
  | @lastElement item h ih =>
    intro start back hstart around
    obtain ⟨after, hafter, hleads⟩ := ih hstart (closes_cons (by decide) back)
      (.list :: around)
    rw [skipBlanks_bytes_cons (by decide) (by decide)] at hafter
    exact hleads.close hafter
  | @elements item items hitem hitems ih ihItems =>
    intro start back hstart around
    rw [List.append_assoc, List.cons_append] at hstart
    obtain ⟨after, hafter, hleads⟩ := ih hstart (closes_cons (by decide) _)
      (.list :: around)
    rw [skipBlanks_bytes_cons (by decide) (by decide)] at hafter
    exact hleads.comma hafter rfl (ihItems rfl around)
  | @member ahead body behind item hahead hbody hbehind hitem ih =>
    intro start back hstart hback around
    rw [List.append_assoc, hahead.skipBlanks_append, List.cons_append,
      skipBlanks_bytes_cons (by decide) (by decide)] at hstart
    simp only [List.append_assoc, List.cons_append] at hstart
    have hkey := reads_skipKey hbody hbehind hstart
    obtain ⟨after, hafter, hleads⟩ := ih rfl hback around
    exact ⟨_, after, hkey, hafter, hleads⟩
  | @lastMember field h ih =>
    intro start back hstart around
    obtain ⟨next, after, hkey, hafter, hleads⟩ := ih hstart (closes_cons (by decide) back)
      (.object :: around)
    rw [skipBlanks_bytes_cons (by decide) (by decide)] at hafter
    exact ⟨next, hkey, hleads.close hafter⟩
  | @members field fields hfield hfields ih ihFields =>
    intro start back hstart around
    rw [List.append_assoc, List.cons_append] at hstart
    obtain ⟨next, after, hkey, hafter, hleads⟩ := ih hstart (closes_cons (by decide) _)
      (.object :: around)
    rw [skipBlanks_bytes_cons (by decide) (by decide)] at hafter
    obtain ⟨more, hmore, hothers⟩ := ihFields rfl around
    have henter : Bracket.object.Enters _ more := hmore
    exact ⟨next, hkey, hleads.comma hafter henter hothers⟩

/-- **A well-formed value is passed over**, up to what follows it. -/
theorem reads_skipValue {text back : List Char} (h : WellFormed .value text) (hback : Closes back)
    {start : List UInt8} (hstart : skipBlanks start = skipBlanks (bytes (text ++ back))) :
    Reads (skipValue start) () (bytes back) := by
  rw [(h.opensAt _).skipBlanks_eq] at hstart
  obtain ⟨shorter, hskip⟩ := passes h hstart hback.ends [] start (length_le_self start)
  refine ⟨shorter, ?_⟩
  rw [skipValue, hskip, skipOut]

end Parts

end BlockScript.Json
