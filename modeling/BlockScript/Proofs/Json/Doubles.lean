import BlockScript.Json.NumberText
import BlockScript.Proofs.Json.Numerals
import BlockScript.Proofs.Number.Shortest

/-!
# Doubles that were written

The text of a double has digits before the point, digits after it, and sometimes an exponent.  The
reader gathers all the digits into one whole number and scales that once, by the exponent less the
number of digits after the point.  So a double is read as what this one scaling makes of its
shortest decimal, which need not be the double that was written.

## What is here

* `Json.Layout` — the parts of the text of a number; `Json.layout` gives those of a decimal.
* `Json.gives_readNumber` — what is read where a number with such parts was written.
* `Json.reread?` — what the text of a double is read as.
-/

set_option autoImplicit false
namespace BlockScript.Json

open Number

/-! ## Readers of numbers -/

/-- The value of digits that are scaled once, if that is not too large. -/
def scaledOnce (negative : Bool) (significand : Nat) (exponent : Int) : Option Float :=
  (scaled? significand exponent).map fun x => if negative then -x else x

/-- A reader gives a double and stops at a text, or it fails if there is no double. -/
def Gives {text : List UInt8} (result : Except Fault (Value × Tail text)) (outcome : Option Float)
    (rest : List UInt8) : Prop :=
  match outcome with
  | some x => ∃ le, result = .ok (.float x, ⟨rest, le⟩)
  | none => ∃ fault, result = .error fault

section Readers

variable {text rest : List UInt8} {negative : Bool} {significand : Nat} {exponent : Int}
  {outcome : Option Float}

/-- A reader of a part of a text reads the text. -/
theorem Gives.of {part : List UInt8} {result : Except Fault (Value × Tail part)}
    (h : Gives result outcome rest) (hpart : part.length ≤ text.length) :
    Gives (result.map fun (value, after) => (value, after.of hpart)) outcome rest := by
  cases outcome with
  | some x =>
    obtain ⟨le, rfl⟩ := h
    exact ⟨Nat.le_trans le hpart, rfl⟩
  | none =>
    obtain ⟨fault, rfl⟩ := h
    exact ⟨fault, rfl⟩

theorem gives_scaledValue (tail : Tail text) :
    Gives ((scaledValue negative significand exponent rest).map fun value => (value, tail))
      (scaledOnce negative significand exponent) tail.val := by
  rw [scaledValue, scaledOnce]
  cases scaled? significand exponent with
  | some x => exact ⟨tail.property, rfl⟩
  | none => exact ⟨_, rfl⟩

/-- A reader gives a double and stops at a shorter text, or it fails if there is no double. -/
def GivesRead {text : List UInt8} (result : Except Fault (Read Value text))
    (outcome : Option Float) (rest : List UInt8) : Prop :=
  match outcome with
  | some x => Reads result (.float x) rest
  | none => ∃ fault, result = .error fault

theorem Gives.read {part : List UInt8} {result : Except Fault (Value × Tail part)}
    (h : Gives result outcome rest) (hshort : ∀ after : Tail part, after.val.length < text.length) :
    GivesRead
      (result.map fun (value, after) => (⟨value, after.val, hshort after⟩ : Read Value text))
      outcome rest := by
  cases outcome with
  | some x =>
    obtain ⟨le, rfl⟩ := h
    exact ⟨hshort ⟨rest, le⟩, rfl⟩
  | none =>
    obtain ⟨fault, rfl⟩ := h
    exact ⟨fault, rfl⟩

theorem GivesRead.map {whole : List UInt8} {result : Except Fault (Read Value text)}
    (h : GivesRead result outcome rest)
    (hle : ∀ read : Read Value text, read.rest.length ≤ whole.length) :
    Gives (result.map fun read => (read.value, (⟨read.rest, hle read⟩ : Tail whole))) outcome
      rest := by
  cases outcome with
  | some x =>
    obtain ⟨shorter, rfl⟩ := h
    exact ⟨hle ⟨.float x, rest, shorter⟩, rfl⟩
  | none =>
    obtain ⟨fault, rfl⟩ := h
    exact ⟨fault, rfl⟩

/-! ## Exponents -/

theorem startsWithExponent_of_ends (hends : Ends rest) : startsWithExponent rest = false := by
  have hscale := hends.scale
  cases rest with
  | nil => rfl
  | cons b rest =>
    rw [startsWithScale, Bool.or_assoc, Bool.or_eq_false_iff] at hscale
    exact hscale.2

/-- Where no exponent is written, the digits are scaled as they are. -/
theorem gives_readScaled_ends (hends : Ends rest) :
    Gives (readScaled negative significand exponent rest)
      (scaledOnce negative significand exponent) rest := by
  rw [readScaled, startsWithExponent_of_ends hends, if_neg Bool.false_ne_true]
  exact gives_scaledValue (Tail.all rest)

theorem startsWithDigit_map_ascii {digits : List Char} (hne : digits ≠ [])
    (hdigits : ∀ c ∈ digits, c.isDigit = true) :
    startsWithDigit (digits.map ascii ++ rest) = true := by
  cases digits with
  | nil => exact absurd rfl hne
  | cons c digits => exact isDigit_ascii (hdigits c List.mem_cons_self)

/-- The exponent of a number with a sign and digits. -/
def powerChars (power : Int) : List Char :=
  'e' :: (if power < 0 then '-' else '+') :: Nat.toDigits 10 power.natAbs

theorem isDigit_of_mem_toDigits {n : Nat} : ∀ c ∈ Nat.toDigits 10 n, c.isDigit = true :=
  fun _ hmem => Nat.isDigit_of_mem_toDigits (by decide) (by decide) hmem

theorem gives_readExponent {shrinking : Bool} {digits : Tail text} {n : Nat}
    (hsign : takeSign text = (shrinking, digits))
    (hdigits : digits.val = (Nat.toDigits 10 n).map ascii ++ rest) (hn : n ≤ maxExponent)
    (hends : Ends rest) :
    Gives (readExponent negative significand exponent text)
      (scaledOnce negative significand (if shrinking then exponent - n else exponent + n))
      rest := by
  have hstarts : startsWithDigit digits.val = true := by
    rw [hdigits]
    exact startsWithDigit_map_ascii Nat.toDigits_ne_nil isDigit_of_mem_toDigits
  have hall : Nat.ofDigitChars 10 (Nat.toDigits 10 n) 0 = n := Nat.ofDigitChars_ten_toDigits
  obtain ⟨hsignificand, hleft⟩ := gather_digits (isDigit_of_mem_toDigits (n := n))
    (hall.trans_le hn) 0 hends.digit
  rw [hall, ← hdigits] at hsignificand
  rw [← hdigits] at hleft
  have hrest : startsWithDigit (gather maxExponent 0 0 digits.val).rest = false := by
    rw [hleft]
    exact hends.digit
  rw [readExponent, hsign]
  simp only [hstarts, if_true]
  rw [hrest, if_neg Bool.false_ne_true, hsignificand]
  simp only [hleft]
  exact gives_scaledValue _

/-- Where an exponent is written, it is added to the one that the point gives. -/
theorem gives_readScaled_power {power : Int} (hpower : power.natAbs ≤ maxExponent)
    (hends : Ends rest) :
    Gives (readScaled negative significand exponent ((powerChars power).map ascii ++ rest))
      (scaledOnce negative significand (exponent + power)) rest := by
  have hletter : startsWithExponent ((powerChars power).map ascii ++ rest) = true := rfl
  rw [readScaled, hletter, if_pos rfl]
  refine Gives.of ?_ _
  by_cases hnegative : power < 0
  · have hchars : ((powerChars power).map ascii ++ rest).tail
        = ascii '-' :: ((Nat.toDigits 10 power.natAbs).map ascii ++ rest) := by
      rw [powerChars, if_pos hnegative]
      rfl
    have htotal : exponent + power = if true then exponent - power.natAbs
        else exponent + power.natAbs := by
      rw [if_pos rfl]
      omega
    rw [hchars, htotal]
    exact gives_readExponent rfl rfl hpower hends
  · have hchars : ((powerChars power).map ascii ++ rest).tail
        = ascii '+' :: ((Nat.toDigits 10 power.natAbs).map ascii ++ rest) := by
      rw [powerChars, if_neg hnegative]
      rfl
    have htotal : exponent + power = if false then exponent - power.natAbs
        else exponent + power.natAbs := by
      rw [if_neg Bool.false_ne_true]
      omega
    rw [hchars, htotal]
    exact gives_readExponent rfl rfl hpower hends

/-! ## Fractions -/

/-- Every byte that a significand takes in is counted. -/
theorem count_gather (limit significand count : Nat) (text : List UInt8) :
    (gather limit significand count text).count + (gather limit significand count text).rest.length
      = count + text.length := by
  fun_induction gather limit significand count text with
  | case1 => rfl
  | case2 significand count b rest hfits gathered ih =>
    simp only [gathered, List.length_cons] at ih ⊢
    omega
  | case3 => rfl

theorem dropDigits_of_ends (hrest : startsWithDigit rest = false) :
    (dropDigits rest).val = rest := by
  cases rest with
  | nil => rfl
  | cons b rest =>
    have hb : isDigit b = false := hrest
    exact List.dropWhile_cons_of_neg (by simp [hb])

theorem dropDigits_map_ascii {digits : List Char} (hdigits : ∀ c ∈ digits, c.isDigit = true)
    {rest : List UInt8} (hrest : startsWithDigit rest = false) :
    (dropDigits (digits.map ascii ++ rest)).val = rest := by
  have hall : ∀ b ∈ digits.map ascii, isDigit b = true := by
    intro b hb
    obtain ⟨c, hc, rfl⟩ := List.mem_map.1 hb
    exact isDigit_ascii (hdigits c hc)
  have hdrop : (dropDigits (digits.map ascii ++ rest)).val = (dropDigits rest).val :=
    List.dropWhile_append_of_pos hall
  rw [hdrop, dropDigits_of_ends hrest]

/-- All the digits of a fraction are taken in, and each of them is a power of ten. -/
theorem gives_readFraction {fraction : List Char} {after : List UInt8} (hne : fraction ≠ [])
    (hdigits : ∀ c ∈ fraction, c.isDigit = true)
    (hfits : Nat.ofDigitChars 10 fraction significand ≤ maxSignificand)
    (hafter : startsWithDigit after = false)
    (h : Gives (readScaled negative (Nat.ofDigitChars 10 fraction significand)
      (exponent - fraction.length) after) outcome rest) :
    Gives (readFraction negative significand exponent (fraction.map ascii ++ after)) outcome
      rest := by
  obtain ⟨hsignificand, hleft⟩ := gather_digits hdigits hfits 0 hafter
  have hcount : (gather maxSignificand significand 0 (fraction.map ascii ++ after)).count
      = fraction.length := by
    have hcount := count_gather maxSignificand significand 0 (fraction.map ascii ++ after)
    rw [hleft, List.length_append, List.length_map] at hcount
    omega
  have hpos := List.length_pos_iff.2 hne
  rw [readFraction]
  simp only
  rw [if_neg (by rw [hcount]; omega)]
  refine Gives.of ?_ _
  rwa [hsignificand, hcount, hleft, dropDigits_of_ends hafter]

/-- A point is followed by a fraction. -/
theorem gives_readAfterWhole_point
    (h : Gives (readFraction negative significand exponent text) outcome rest) :
    Gives (readAfterWhole negative significand exponent (ascii '.' :: text)) outcome rest := by
  rw [readAfterWhole, if_pos rfl]
  exact h.of _

/-- Without a point there may be an exponent. -/
theorem gives_readAfterWhole_power (hhead : text.head? ≠ some (ascii '.'))
    (h : Gives (readScaled negative significand exponent text) outcome rest) :
    Gives (readAfterWhole negative significand exponent text) outcome rest := by
  cases text with
  | nil => exact h
  | cons b text =>
    have hb : b ≠ ascii '.' := fun heq => hhead (congrArg some heq)
    rwa [readAfterWhole, if_neg hb]

end Readers

/-! ## Layouts -/

/-- The parts of the text of a number: the digits before the point and after it, and the exponent
if one is written. -/
structure Layout where
  whole : List Char
  fraction : List Char
  power : Option Int

namespace Layout

/-- What is written after the digits before the point. -/
def after (layout : Layout) : List Char :=
  (if layout.fraction.isEmpty then [] else '.' :: layout.fraction)
    ++ (layout.power.map powerChars).getD []

/-- All that is written. -/
def chars (layout : Layout) : List Char := layout.whole ++ layout.after

/-- All the digits, as one number. -/
def significand (layout : Layout) : Nat :=
  Nat.ofDigitChars 10 (layout.whole ++ layout.fraction) 0

/-- The exponent that belongs to all the digits. -/
def exponent (layout : Layout) : Int := layout.power.getD 0 - layout.fraction.length

/-- A layout that is read as a double, without loss of digits. -/
structure Legible (layout : Layout) : Prop where
  digits : ∀ c ∈ layout.whole ++ layout.fraction, c.isDigit = true
  fits : layout.significand ≤ maxSignificand
  first : layout.whole = ['0'] ∨ ∃ c digits, c ≠ '0' ∧ layout.whole = c :: digits
  double : layout.fraction ≠ [] ∨ layout.power.isSome = true
  power : ∀ power, layout.power = some power → power.natAbs ≤ maxExponent

variable {layout : Layout} {negative : Bool} {rest : List UInt8}

/-- What is written of an exponent. -/
theorem gives_readScaled {significand : Nat} {exponent : Int} {power : Option Int}
    (hpower : ∀ n, power = some n → n.natAbs ≤ maxExponent) (hends : Ends rest) :
    Gives (readScaled negative significand exponent
        (((power.map powerChars).getD []).map ascii ++ rest))
      (scaledOnce negative significand (power.getD 0 + exponent)) rest := by
  cases power with
  | none =>
    rw [Option.getD_none, Int.zero_add]
    exact gives_readScaled_ends hends
  | some n =>
    rw [Option.getD_some, Int.add_comm]
    exact gives_readScaled_power (hpower n rfl) hends

theorem startsWithDigit_power {power : Option Int} (hends : Ends rest) :
    startsWithDigit (((power.map powerChars).getD []).map ascii ++ rest) = false := by
  cases power with
  | none => exact hends.digit
  | some n => rfl

/-- A double goes on with a fraction or an exponent after the digits before the point. -/
theorem Legible.startsWith_after (h : layout.Legible) (rest : List UInt8) :
    startsWithDigit (layout.after.map ascii ++ rest) = false ∧
      startsWithScale (layout.after.map ascii ++ rest) = true := by
  rw [after]
  split
  · next hempty =>
    obtain ⟨n, hpower⟩ := Option.isSome_iff_exists.1
      (h.double.resolve_left (not_not.2 (List.isEmpty_iff.1 hempty)))
    rw [hpower]
    exact ⟨rfl, rfl⟩
  · exact ⟨rfl, rfl⟩

/-- The digits before the point are not more than all the digits. -/
theorem ofDigitChars_whole_le (layout : Layout) :
    Nat.ofDigitChars 10 layout.whole 0 ≤ layout.significand := by
  rw [significand, Nat.ofDigitChars_append]
  exact le_ofDigitChars _ _

/-- What follows the digits before the point is read. -/
theorem Legible.gives_readAfterWhole (h : layout.Legible) (negative : Bool) (hends : Ends rest) :
    Gives (readAfterWhole negative (Nat.ofDigitChars 10 layout.whole 0) 0
        (layout.after.map ascii ++ rest))
      (scaledOnce negative layout.significand layout.exponent) rest := by
  have hsignificand : Nat.ofDigitChars 10 layout.fraction (Nat.ofDigitChars 10 layout.whole 0)
      = layout.significand := by
    rw [significand, Nat.ofDigitChars_append]
  by_cases hempty : layout.fraction.isEmpty = true
  · have hfraction : layout.fraction = [] := List.isEmpty_iff.1 hempty
    obtain ⟨n, hpower⟩ := Option.isSome_iff_exists.1
      (h.double.resolve_left (not_not.2 hfraction))
    have hexponent : layout.exponent = layout.power.getD 0 + 0 := by
      rw [exponent, hfraction, List.length_nil]
      omega
    rw [hfraction, Nat.ofDigitChars_nil] at hsignificand
    rw [after, if_pos hempty, List.nil_append, hsignificand, hexponent]
    refine gives_readAfterWhole_power ?_ (gives_readScaled h.power hends)
    rw [hpower]
    simp only [Option.map_some, Option.getD_some, powerChars, List.map_cons, List.cons_append,
      List.head?_cons]
    decide
  · have hexponent : layout.exponent = layout.power.getD 0 + (0 - layout.fraction.length) := by
      rw [exponent]
      omega
    rw [after, if_neg hempty, List.cons_append, List.map_cons, List.cons_append, List.map_append,
      List.append_assoc]
    refine gives_readAfterWhole_point (gives_readFraction (mt List.isEmpty_iff.2 hempty)
      (fun c hmem => h.digits c (List.mem_append_right _ hmem)) (hsignificand ▸ h.fits)
      (startsWithDigit_power hends) ?_)
    rw [hsignificand, hexponent]
    exact gives_readScaled h.power hends

theorem lt_of_mem_powerChars {power : Int} : ∀ c ∈ powerChars power, c.toNat < 128 := by
  intro c hmem
  rw [powerChars] at hmem
  rcases List.mem_cons.1 hmem with rfl | hmem
  · decide
  rcases List.mem_cons.1 hmem with rfl | hmem
  · split <;> decide
  · exact lt_of_isDigit (isDigit_of_mem_toDigits c hmem)

/-- A number is written in ASCII. -/
theorem Legible.lt_of_mem_chars (h : layout.Legible) : ∀ c ∈ layout.chars, c.toNat < 128 := by
  intro c hmem
  rcases List.mem_append.1 hmem with hwhole | hafter
  · exact lt_of_isDigit (h.digits c (List.mem_append_left _ hwhole))
  rcases List.mem_append.1 hafter with hfraction | hpower
  · split at hfraction
    · cases hfraction
    · rcases List.mem_cons.1 hfraction with rfl | hfraction
      · decide
      · exact lt_of_isDigit (h.digits c (List.mem_append_right _ hfraction))
  · cases hlayout : layout.power with
    | none => rw [hlayout] at hpower; cases hpower
    | some power => exact lt_of_mem_powerChars c (by rwa [hlayout] at hpower)

/-- A number begins with a digit. -/
theorem Legible.chars_eq_cons (h : layout.Legible) :
    ∃ c chars, c.isDigit = true ∧ layout.chars = c :: chars := by
  have hdigits : ∀ c ∈ layout.whole, c.isDigit = true := fun c hmem =>
    h.digits c (List.mem_append_left _ hmem)
  rcases h.first with hzero | ⟨c, digits, -, hwhole⟩
  · exact ⟨'0', layout.after, rfl, by rw [chars, hzero]; rfl⟩
  · exact ⟨c, digits ++ layout.after, hdigits c (hwhole ▸ List.mem_cons_self),
      by rw [chars, hwhole]; rfl⟩

/-- **A number is read from its first digit on** as all its digits, scaled once. -/
theorem Legible.gives_readNumber (h : layout.Legible) (negative : Bool) (hends : Ends rest) :
    GivesRead (readNumber negative (layout.chars.map ascii ++ rest))
      (scaledOnce negative layout.significand layout.exponent) rest := by
  have hafter := h.gives_readAfterWhole negative hends
  obtain ⟨hdigit, hscale⟩ := h.startsWith_after rest
  rw [chars, List.map_append, List.append_assoc]
  rcases h.first with hzero | ⟨c, digits, hne, hwhole⟩
  · rw [hzero] at hafter ⊢
    rw [List.map_singleton, List.singleton_append, readNumber, if_pos rfl, hdigit,
      if_neg Bool.false_ne_true, hscale, if_pos rfl]
    exact hafter.read _
  · have hisDigit : ∀ other ∈ c :: digits, other.isDigit = true := fun other hmem =>
      h.digits other (List.mem_append_left _ (hwhole ▸ hmem))
    have hc : c.isDigit = true := hisDigit c List.mem_cons_self
    have hfirst : ascii c ≠ ascii '0' := fun heq =>
      hne (ascii_inj (Nat.lt_trans (lt_of_isDigit hc) (by decide)) (by decide) heq)
    have hvalue : Nat.ofDigitChars 10 digits (digitValue (ascii c))
        = Nat.ofDigitChars 10 layout.whole 0 := by
      rw [hwhole, Nat.ofDigitChars_cons, Nat.mul_zero, Nat.zero_add, ← digitValue_ascii hc]
    obtain ⟨hsignificand, hleft⟩ := gather_digits
      (fun other hmem => hisDigit other (List.mem_cons_of_mem _ hmem))
      (hvalue.trans_le (Nat.le_trans (ofDigitChars_whole_le layout) h.fits)) 1 hdigit
    rw [hvalue] at hsignificand
    rw [hwhole, List.map_cons, List.cons_append, readNumber, if_neg hfirst,
      if_pos (isDigit_ascii hc)]
    simp only [hleft, hscale, Bool.or_true, if_true]
    refine Gives.read ?_ _
    rw [hsignificand, hleft, dropDigits_of_ends hdigit, Nat.sub_self]
    exact hafter

end Layout

/-! ## Decimals -/

/-- The power of ten of the first digit of a decimal. -/
def firstPlace (decimal : Decimal) : Int :=
  decimal.exponent + (Nat.toDigits 10 decimal.digits).length - 1

/-- Whether a decimal is written without an exponent. -/
def IsPlain (decimal : Decimal) : Prop :=
  pointStyle.least ≤ firstPlace decimal ∧ firstPlace decimal ≤ pointStyle.greatest

instance (decimal : Decimal) : Decidable (IsPlain decimal) := inferInstanceAs (Decidable (_ ∧ _))

/-- The parts of the text of a decimal. -/
def layout (decimal : Decimal) : Layout :=
  let digits := Nat.toDigits 10 decimal.digits
  let first := firstPlace decimal
  if IsPlain decimal then
    if 0 ≤ decimal.exponent then
      ⟨digits ++ List.replicate decimal.exponent.toNat '0', ['0'], none⟩
    else if 0 ≤ first then ⟨digits.take (first + 1).toNat, digits.drop (first + 1).toNat, none⟩
    else ⟨['0'], List.replicate (-first - 1).toNat '0' ++ digits, none⟩
  else ⟨digits.take 1, digits.drop 1, some first⟩

theorem toList_zeros (n : Nat) : (zeros n).toList = List.replicate n '0' := String.toList_ofList

theorem toList_decimalText (decimal : Decimal) :
    (decimalText decimal).toList = (layout decimal).chars := by
  have htext : decimalText decimal
      = if IsPlain decimal then plainText (Nat.toDigits 10 decimal.digits) decimal.exponent
        else exponentText (Nat.toDigits 10 decimal.digits) decimal.exponent := rfl
  have hfirst : decimal.exponent + (Nat.toDigits 10 decimal.digits).length - 1
      = firstPlace decimal := rfl
  rw [htext, layout]
  split_ifs with hplain hwhole hmiddle
  · simp only [plainText, if_pos hwhole, String.toList_append, String.toList_ofList, toList_zeros,
      Layout.chars, Layout.after]
    rfl
  · have hrest : (firstPlace decimal + 1).toNat < (Nat.toDigits 10 decimal.digits).length := by
      rw [firstPlace] at hmiddle ⊢
      omega
    have hfraction : ((Nat.toDigits 10 decimal.digits).drop (firstPlace decimal + 1).toNat).isEmpty
        = false := by
      rw [List.isEmpty_eq_false_iff, ne_eq, List.drop_eq_nil_iff]
      omega
    simp only [plainText, if_neg hwhole, hfirst, if_pos hmiddle, String.toList_append,
      String.toList_ofList, Layout.chars, Layout.after, hfraction]
    simp
  · have hfraction : (List.replicate (-firstPlace decimal - 1).toNat '0'
        ++ Nat.toDigits 10 decimal.digits).isEmpty = false := by
      simp [Nat.toDigits_ne_nil]
    simp only [plainText, if_neg hwhole, hfirst, if_neg hmiddle, String.toList_append,
      String.toList_ofList, toList_zeros, Layout.chars, Layout.after, hfraction]
    simp
  · simp only [exponentText, hfirst, String.toList_append, String.toList_ofList, Layout.chars,
      Layout.after, Option.map_some, Option.getD_some, powerChars]
    have hpower : (toString (firstPlace decimal).natAbs).toList
        = Nat.toDigits 10 (firstPlace decimal).natAbs := Nat.toList_repr
    rw [hpower]
    split_ifs <;> simp

/-- The digits that the text of a decimal has, with the exponent that belongs to them.  Zeros before
the point are digits, and so is the one after it. -/
def asWritten (decimal : Decimal) : Decimal :=
  if IsPlain decimal ∧ 0 ≤ decimal.exponent then
    ⟨10 ^ (decimal.exponent.toNat + 1) * decimal.digits, -1⟩
  else decimal

section Layouts

variable {decimal : Decimal}

theorem layout_of_whole (h : IsPlain decimal ∧ 0 ≤ decimal.exponent) :
    layout decimal = ⟨Nat.toDigits 10 decimal.digits ++ List.replicate decimal.exponent.toNat '0',
      ['0'], none⟩ := by
  rw [layout, if_pos h.1, if_pos h.2]

/-- Where no zeros are put before the point, the digits of the text are those of the decimal, after
zeros that come first. -/
theorem digits_layout (h : ¬ (IsPlain decimal ∧ 0 ≤ decimal.exponent)) :
    ∃ n, (layout decimal).whole ++ (layout decimal).fraction
      = List.replicate n '0' ++ Nat.toDigits 10 decimal.digits := by
  rw [layout]
  split_ifs with hplain hwhole hmiddle
  · exact absurd ⟨hplain, hwhole⟩ h
  · exact ⟨0, List.take_append_drop _ _⟩
  · exact ⟨(-firstPlace decimal - 1).toNat + 1, rfl⟩
  · exact ⟨0, List.take_append_drop _ _⟩

theorem exponent_layout (decimal : Decimal) :
    (layout decimal).exponent = (asWritten decimal).exponent := by
  rw [asWritten]
  split
  · next hwhole =>
    rw [layout_of_whole hwhole]
    rfl
  · next hnot =>
    have hlength : 0 < (Nat.toDigits 10 decimal.digits).length := Nat.length_toDigits_pos
    rw [layout]
    split_ifs with hplain hwhole hmiddle
    · exact absurd ⟨hplain, hwhole⟩ hnot
    · simp only [Layout.exponent, Option.getD_none, List.length_drop]
      rw [firstPlace] at hmiddle ⊢
      omega
    · simp only [Layout.exponent, Option.getD_none, List.length_append, List.length_replicate]
      rw [firstPlace] at hmiddle ⊢
      omega
    · simp only [Layout.exponent, Option.getD_some, List.length_drop]
      rw [firstPlace]
      omega

theorem significand_layout (decimal : Decimal) :
    (layout decimal).significand = (asWritten decimal).digits := by
  rw [Layout.significand, asWritten]
  split
  · next h =>
    rw [layout_of_whole h, List.append_assoc]
    have hzeros : List.replicate decimal.exponent.toNat '0' ++ ['0']
        = List.replicate (decimal.exponent.toNat + 1) '0' := List.replicate_succ'.symm
    rw [hzeros, Nat.ofDigitChars_append, Nat.ofDigitChars_ten_toDigits,
      Nat.ofDigitChars_replicate_zero]
  · next h =>
    obtain ⟨n, hdigits⟩ := digits_layout h
    rw [hdigits, Nat.ofDigitChars_append, Nat.ofDigitChars_replicate_zero, Nat.mul_zero,
      Nat.ofDigitChars_ten_toDigits]

theorem isDigit_layout (decimal : Decimal) :
    ∀ c ∈ (layout decimal).whole ++ (layout decimal).fraction, c.isDigit = true := by
  have hzeros : ∀ n, ∀ c ∈ List.replicate n '0', c.isDigit = true := by
    intro n c hmem
    rw [List.eq_of_mem_replicate hmem]
    rfl
  intro c hmem
  by_cases hwhole : IsPlain decimal ∧ 0 ≤ decimal.exponent
  · rw [layout_of_whole hwhole, List.append_assoc] at hmem
    rcases List.mem_append.1 hmem with hmem | hmem
    · exact isDigit_of_mem_toDigits c hmem
    · exact hzeros _ c (List.replicate_succ' ▸ hmem)
  · obtain ⟨n, hdigits⟩ := digits_layout hwhole
    rw [hdigits] at hmem
    rcases List.mem_append.1 hmem with hmem | hmem
    · exact hzeros n c hmem
    · exact isDigit_of_mem_toDigits c hmem

/-- A decimal whose text is read without loss of digits. -/
structure Moderate (decimal : Decimal) : Prop where
  pos : 0 < decimal.digits
  few : decimal.digits ≤ 10 ^ 17
  near : -420 ≤ decimal.exponent ∧ decimal.exponent ≤ 420

theorem Moderate.length_le (h : Moderate decimal) :
    (Nat.toDigits 10 decimal.digits).length ≤ 18 :=
  (Nat.length_toDigits_le_iff (by decide) (by decide)).2 (Nat.lt_of_le_of_lt h.few (by decide))

theorem Moderate.fits (h : Moderate decimal) : (asWritten decimal).digits ≤ 10 ^ 17 := by
  rw [asWritten]
  split
  · next hwhole =>
    have hlt : decimal.digits < 10 ^ (Nat.toDigits 10 decimal.digits).length :=
      lt_pow_digitCount decimal.digits
    have hfirst : firstPlace decimal ≤ 15 := hwhole.1.2
    rw [firstPlace] at hfirst
    calc 10 ^ (decimal.exponent.toNat + 1) * decimal.digits
        ≤ 10 ^ (decimal.exponent.toNat + 1) * 10 ^ (Nat.toDigits 10 decimal.digits).length :=
          Nat.mul_le_mul_left _ hlt.le
      _ = 10 ^ (decimal.exponent.toNat + 1 + (Nat.toDigits 10 decimal.digits).length) :=
          (Nat.pow_add ..).symm
      _ ≤ 10 ^ 17 := Nat.pow_le_pow_right (by decide) (by omega)
  · exact h.few

/-- **The text of a decimal is legible.** -/
theorem Moderate.legible (h : Moderate decimal) : (layout decimal).Legible where
  digits := isDigit_layout decimal
  fits := by
    rw [significand_layout]
    exact Nat.le_trans h.fits (by decide)
  first := by
    obtain ⟨c, digits, hne, hdigits⟩ := toDigits_eq_cons h.pos
    rw [layout]
    split_ifs with hplain hwhole hmiddle
    · exact .inr ⟨c, _, hne, by rw [hdigits]; rfl⟩
    · obtain ⟨n, hn⟩ : ∃ n, (firstPlace decimal + 1).toNat = n + 1 :=
        ⟨(firstPlace decimal).toNat, by omega⟩
      exact .inr ⟨c, digits.take n, hne, by rw [hdigits, hn]; rfl⟩
    · exact .inl rfl
    · exact .inr ⟨c, [], hne, by rw [hdigits]; rfl⟩
  double := by
    rw [layout]
    split_ifs with hplain hwhole hmiddle
    · exact .inl (List.cons_ne_nil _ _)
    · refine .inl ?_
      rw [firstPlace] at hmiddle ⊢
      simp only [ne_eq, List.drop_eq_nil_iff]
      omega
    · exact .inl (by simp [Nat.toDigits_ne_nil])
    · exact .inr rfl
  power := by
    intro power hpower
    have hlength := h.length_le
    have hnear := h.near
    rw [layout] at hpower
    split_ifs at hpower
    rw [← Option.some.inj hpower, firstPlace, maxExponent]
    omega

end Layouts

/-! ## Doubles -/

/-- What the text of a double is read as: its shortest decimal, scaled once.  Nothing is read of
what is not a finite number, or if the scaling gives none. -/
def reread? (x : Float) : Option Float :=
  match parts x with
  | .nan => none
  | .infinite _ => none
  | .finite negative mantissa exponent =>
    let written := if mantissa = 0 then ⟨0, -1⟩ else asWritten (shortest mantissa exponent)
    scaledOnce negative written.digits written.exponent

/-- The text of zero. -/
def zeroLayout : Layout := ⟨['0'], ['0'], none⟩

theorem legible_zeroLayout : zeroLayout.Legible where
  digits := by
    intro c hmem
    have hzero : c = '0' := by simpa [zeroLayout] using hmem
    rw [hzero]
    rfl
  fits := Nat.zero_le _
  first := .inl rfl
  double := .inl (List.cons_ne_nil _ _)
  power := nofun

/-- The shortest decimal of a double is legible. -/
theorem moderate_shortest {x : Float} {negative : Bool} {mantissa : Nat} {exponent : Int}
    (h : parts x = .finite negative mantissa exponent) (hne : mantissa ≠ 0) :
    Moderate (shortest mantissa exponent) := by
  obtain ⟨hsmall, hexponent⟩ := parts_bounds h
  have hpos := Nat.pos_of_ne_zero hne
  exact ⟨shortest_digits_pos hpos hsmall, shortest_digits_le hpos hsmall,
    shortest_exponent hpos hsmall hexponent⟩

/-- The text of a finite double is a layout, after a minus if it is negative. -/
theorem exists_layout {x : Float} {negative : Bool} {mantissa : Nat} {exponent : Int}
    (h : parts x = .finite negative mantissa exponent) :
    ∃ layout : Layout, layout.Legible ∧
      (floatText x).toList = (if negative then ['-'] else []) ++ layout.chars ∧
      reread? x = scaledOnce negative layout.significand layout.exponent := by
  have hsign : ∀ text : String, (if negative = true then "-" ++ text else text).toList
      = (if negative then ['-'] else []) ++ text.toList := by
    intro text
    cases negative
    · rfl
    · exact String.toList_append
  rw [floatText, reread?, h]
  simp only [hsign]
  by_cases hzero : mantissa = 0
  · simp only [if_pos hzero]
    exact ⟨zeroLayout, legible_zeroLayout, rfl, rfl⟩
  · simp only [if_neg hzero, toList_decimalText, ← significand_layout, ← exponent_layout]
    exact ⟨layout (shortest mantissa exponent), (moderate_shortest h hzero).legible, rfl, rfl⟩

end BlockScript.Json
