import BlockScript.Proofs.Json.Decoding
import BlockScript.Proofs.Json.Depth

/-!
# Numbers and what follows them

A number ends where no digit, point or exponent comes next.  What does come next has no influence on
what is read: a text that is read as a number on its own is read as the same number wherever it
stands, as long as it ends there.

## What is here

* `Json.gather_append`, `Json.dropDigits_append` — digits are taken up to the same place.
* `Json.Lengthens` — a reader does the same with a longer text; `Json.lengthens_readNumber` says so
  of the reader of numbers.
* `Json.reads_scalar_append` — **a number is read the same whatever follows it**.
-/

set_option autoImplicit false
namespace BlockScript.Json

section

variable {text more longer : List UInt8}

/-! ## Digits -/

theorem startsWithDigit_append (text : List UInt8) (hmore : Ends more) :
    startsWithDigit (text ++ more) = startsWithDigit text := by
  cases text with
  | nil => exact hmore.digit
  | cons b text => rfl

theorem startsWithScale_append (text : List UInt8) (hmore : Ends more) :
    startsWithScale (text ++ more) = startsWithScale text := by
  cases text with
  | nil => exact hmore.scale
  | cons b text => rfl

theorem startsWithExponent_append (text : List UInt8) (hmore : Ends more) :
    startsWithExponent (text ++ more) = startsWithExponent text := by
  cases text with
  | nil => exact startsWithExponent_of_ends hmore
  | cons b text => rfl

theorem dropDigits_append (text : List UInt8) (hmore : Ends more) :
    (dropDigits (text ++ more)).val = (dropDigits text).val ++ more := by
  induction text with
  | nil => exact dropDigits_of_ends hmore.digit
  | cons b text ih =>
    cases hb : isDigit b with
    | true =>
      have hlong : (dropDigits (b :: text ++ more)).val = (dropDigits (text ++ more)).val :=
        List.dropWhile_cons_of_pos hb
      have hshort : (dropDigits (b :: text)).val = (dropDigits text).val :=
        List.dropWhile_cons_of_pos hb
      rw [hlong, hshort, ih]
    | false =>
      have hnot : ¬ isDigit b = true := by simp [hb]
      have hlong : (dropDigits (b :: text ++ more)).val = b :: text ++ more :=
        List.dropWhile_cons_of_neg hnot
      have hshort : (dropDigits (b :: text)).val = b :: text := List.dropWhile_cons_of_neg hnot
      rw [hlong, hshort]

/-- Digits are gathered up to the same place, whatever follows them. -/
theorem gather_append (text : List UInt8) (hmore : Ends more) (limit significand count : Nat) :
    (gather limit significand count (text ++ more)).significand
        = (gather limit significand count text).significand
      ∧ (gather limit significand count (text ++ more)).count
        = (gather limit significand count text).count
      ∧ (gather limit significand count (text ++ more)).rest
        = (gather limit significand count text).rest ++ more := by
  induction text generalizing significand count with
  | nil =>
    cases more with
    | nil => exact ⟨rfl, rfl, rfl⟩
    | cons b more =>
      have hb : isDigit b = false := hmore.digit
      have hstop : gather limit significand count (b :: more)
          = ⟨significand, count, b :: more, Nat.le_refl _⟩ := by
        rw [gather, hb, Bool.false_and, if_neg Bool.false_ne_true]
      rw [List.nil_append, hstop]
      exact ⟨rfl, rfl, rfl⟩
  | cons b text ih =>
    rw [List.cons_append, gather, gather]
    split
    · exact ih _ _
    · exact ⟨rfl, rfl, rfl⟩

theorem takeSign_append (hne : text ≠ []) (more : List UInt8) :
    (takeSign (text ++ more)).1 = (takeSign text).1
      ∧ (takeSign (text ++ more)).2.val = (takeSign text).2.val ++ more := by
  obtain ⟨b, text, rfl⟩ := List.exists_cons_of_ne_nil hne
  rw [List.cons_append, takeSign, takeSign]
  split
  · exact ⟨rfl, rfl⟩
  · split
    · exact ⟨rfl, rfl⟩
    · exact ⟨rfl, rfl⟩

/-! ## Readers -/

/-- What a reader makes of a text, another one makes of the text with more after it. -/
def Lengthens (more : List UInt8) (result : Except Fault (Value × Tail text))
    (other : Except Fault (Value × Tail longer)) : Prop :=
  ∀ value tail, result = .ok (value, tail) → ∃ le, other = .ok (value, ⟨tail.val ++ more, le⟩)

theorem Lengthens.of {part longer whole wholeLonger : List UInt8}
    {result : Except Fault (Value × Tail part)} {other : Except Fault (Value × Tail longer)}
    (h : Lengthens more result other) (hpart : part.length ≤ whole.length)
    (hlonger : longer.length ≤ wholeLonger.length) :
    Lengthens more (result.map fun (value, after) => (value, after.of hpart))
      (other.map fun (value, after) => (value, after.of hlonger)) := by
  intro value tail hresult
  obtain ⟨⟨value, after⟩, rfl, hpair⟩ := map_eq_ok hresult
  obtain ⟨rfl, rfl⟩ := Prod.mk.inj hpair
  obtain ⟨le, rfl⟩ := h value after rfl
  exact ⟨Nat.le_trans le hlonger, rfl⟩

theorem ok_eq_of_val {value : Value} {tail : Tail text} {rest : List UInt8} (h : tail.val = rest) :
    ∃ le, (Except.ok (value, tail) : Except Fault (Value × Tail text))
      = .ok (value, ⟨rest, le⟩) := by
  subst h
  exact ⟨tail.property, rfl⟩

theorem lengthens_scaledValue {negative : Bool} {significand : Nat} {exponent : Int}
    {rest restToo : List UInt8} (tail : Tail text) (other : Tail longer)
    (hother : other.val = tail.val ++ more) :
    Lengthens more
      ((scaledValue negative significand exponent rest).map fun value => (value, tail))
      ((scaledValue negative significand exponent restToo).map fun value => (value, other)) := by
  obtain ⟨_, le⟩ := other
  subst hother
  intro value after hresult
  rw [scaledValue] at hresult ⊢
  cases hscaled : Number.scaled? significand exponent with
  | none =>
    rw [hscaled] at hresult
    cases hresult
  | some x =>
    rw [hscaled] at hresult
    obtain ⟨rfl, rfl⟩ := Prod.mk.inj (Except.ok.inj hresult)
    exact ⟨le, rfl⟩

theorem lengthens_readExponent (hmore : Ends more) (hlonger : longer = text ++ more)
    (negative : Bool) (significand : Nat) (exponent : Int) :
    Lengthens more (readExponent negative significand exponent text)
      (readExponent negative significand exponent longer) := by
  subst hlonger
  intro value tail hresult
  cases hsign : takeSign text with
  | mk shrinking digits =>
    rw [readExponent, hsign] at hresult
    cases hstarts : startsWithDigit digits.val with
    | false =>
      simp only [hstarts, Bool.false_eq_true, if_false] at hresult
      split at hresult <;> cases hresult
    | true =>
      have hne : text ≠ [] := by
        rintro rfl
        obtain ⟨-, rfl⟩ := Prod.mk.inj hsign
        cases hstarts
      obtain ⟨hshrinking, hdigits⟩ := takeSign_append hne more
      cases hlong : takeSign (text ++ more) with
      | mk shrinkingToo digitsToo =>
        rw [hsign, hlong] at hshrinking hdigits
        obtain rfl : shrinkingToo = shrinking := hshrinking
        have hdigits : digitsToo.val = digits.val ++ more := hdigits
        obtain ⟨hsignificand, -, hrest⟩ := gather_append digits.val hmore maxExponent 0 0
        rw [← hdigits] at hsignificand hrest
        have hstartsToo : startsWithDigit digitsToo.val = true := by
          rw [hdigits, startsWithDigit_append _ hmore, hstarts]
        have hover := startsWithDigit_append (gather maxExponent 0 0 digits.val).rest hmore
        rw [← hrest] at hover
        rw [readExponent, hlong]
        simp only [hstarts, hstartsToo, if_true, hover, hsignificand] at hresult ⊢
        split at hresult
        · next hlarge =>
          rw [if_pos hlarge]
          split at hresult
          · cases hresult
          · next hzero =>
            rw [if_neg hzero]
            obtain ⟨rfl, rfl⟩ := Prod.mk.inj (Except.ok.inj hresult)
            have hdrop : (dropDigits (gather maxExponent 0 0 digitsToo.val).rest).val
                = (dropDigits (gather maxExponent 0 0 digits.val).rest).val ++ more := by
              rw [hrest, dropDigits_append _ hmore]
            exact ok_eq_of_val hdrop
        · next hsmall =>
          rw [if_neg hsmall]
          exact lengthens_scaledValue _ _ hrest value tail hresult

theorem lengthens_readScaled (hmore : Ends more) (hlonger : longer = text ++ more)
    (negative : Bool) (significand : Nat) (exponent : Int) :
    Lengthens more (readScaled negative significand exponent text)
      (readScaled negative significand exponent longer) := by
  subst hlonger
  rw [readScaled, readScaled, startsWithExponent_append _ hmore]
  cases hstarts : startsWithExponent text with
  | false =>
    simp only [Bool.false_eq_true, if_false]
    exact lengthens_scaledValue _ _ rfl
  | true =>
    have htail : (text ++ more).tail = text.tail ++ more := by
      cases text with
      | nil => cases hstarts
      | cons b text => rfl
    simp only [if_true]
    exact (lengthens_readExponent hmore htail negative significand exponent).of _ _

theorem lengthens_readFraction (hmore : Ends more) (hlonger : longer = text ++ more)
    (negative : Bool) (significand : Nat) (exponent : Int) :
    Lengthens more (readFraction negative significand exponent text)
      (readFraction negative significand exponent longer) := by
  subst hlonger
  obtain ⟨hsignificand, hcount, hrest⟩ :=
    gather_append text hmore maxSignificand significand 0
  rw [readFraction, readFraction]
  simp only [hsignificand, hcount, hrest, startsWithDigit_append _ hmore]
  by_cases hnone : (gather maxSignificand significand 0 text).count = 0
      ∧ ¬ startsWithDigit (gather maxSignificand significand 0 text).rest = true
  · intro value tail hresult
    rw [if_pos hnone] at hresult
    cases hresult
  · rw [if_neg hnone, if_neg hnone]
    have hdrop := dropDigits_append (gather maxSignificand significand 0 text).rest hmore
    rw [← hrest] at hdrop
    exact (lengthens_readScaled hmore hdrop negative _ _).of _ _

/-- Where no point comes next, an exponent may. -/
theorem readAfterWhole_of_ne (h : ∀ b ∈ text.head?, b ≠ ascii '.') (negative : Bool)
    (significand : Nat) (exponent : Int) :
    readAfterWhole negative significand exponent text
      = readScaled negative significand exponent text := by
  cases text with
  | nil => rfl
  | cons b text => rw [readAfterWhole, if_neg (h b rfl)]

theorem lengthens_readAfterWhole (hmore : Ends more) (hlonger : longer = text ++ more)
    (negative : Bool) (significand : Nat) (exponent : Int) :
    Lengthens more (readAfterWhole negative significand exponent text)
      (readAfterWhole negative significand exponent longer) := by
  by_cases hpoint : ∃ rest, text = ascii '.' :: rest
  · obtain ⟨rest, rfl⟩ := hpoint
    subst hlonger
    rw [List.cons_append, readAfterWhole, if_pos rfl, readAfterWhole, if_pos rfl]
    exact (lengthens_readFraction hmore rfl negative significand exponent).of _ _
  · have hshort : ∀ b ∈ text.head?, b ≠ ascii '.' := by
      rintro b hb rfl
      exact hpoint (List.head?_eq_some_iff.1 hb)
    have hlong : ∀ b ∈ longer.head?, b ≠ ascii '.' := by
      subst hlonger
      cases text with
      | nil => exact hmore.ne_point
      | cons b text => exact hshort
    rw [readAfterWhole_of_ne hshort, readAfterWhole_of_ne hlong]
    exact lengthens_readScaled hmore hlonger negative significand exponent

theorem reads_readNumber_append_zero (hmore : Ends more) {negative : Bool} {value : Value}
    {rest : List UInt8} (h : Reads (readNumber negative (ascii '0' :: text)) value rest) :
    Reads (readNumber negative (ascii '0' :: (text ++ more))) value (rest ++ more) := by
  obtain ⟨shorter, hread⟩ := h
  have hlength : (rest ++ more).length < (ascii '0' :: (text ++ more)).length := by
    rw [List.length_cons] at shorter ⊢
    rw [List.length_append, List.length_append]
    omega
  refine ⟨hlength, ?_⟩
  rw [readNumber, if_pos rfl] at hread
  rw [← startsWithDigit_append _ hmore, ← startsWithScale_append _ hmore] at hread
  split at hread
  · cases hread
  · next hdigit =>
    split at hread
    · next hscale =>
      obtain ⟨⟨value, after⟩, hresult, hpair⟩ := map_eq_ok hread
      cases hpair
      obtain ⟨le, hresult⟩ := lengthens_readAfterWhole hmore rfl negative 0 0 _ _ hresult
      simp only [readNumber, if_true, if_neg hdigit, if_pos hscale, hresult]
      rfl
    · next hscale =>
      cases hread
      simp only [readNumber, if_true, if_neg hdigit, if_neg hscale]

theorem reads_readNumber_append_digit (hmore : Ends more) {negative : Bool} {value : Value}
    {rest : List UInt8} {b : UInt8} (hzero : b ≠ ascii '0') (hdigit : isDigit b = true)
    (h : Reads (readNumber negative (b :: text)) value rest) :
    Reads (readNumber negative (b :: (text ++ more))) value (rest ++ more) := by
  obtain ⟨shorter, hread⟩ := h
  have hlength : (rest ++ more).length < (b :: (text ++ more)).length := by
    rw [List.length_cons] at shorter ⊢
    rw [List.length_append, List.length_append]
    omega
  obtain ⟨hsignificand, -, hrest⟩ := gather_append text hmore maxSignificand (digitValue b) 1
  have hdrop := dropDigits_append (gather maxSignificand (digitValue b) 1 text).rest hmore
  rw [← hrest] at hdrop
  have hgoesOn : (startsWithDigit (gather maxSignificand (digitValue b) 1 (text ++ more)).rest
        || startsWithScale (gather maxSignificand (digitValue b) 1 (text ++ more)).rest)
      = (startsWithDigit (gather maxSignificand (digitValue b) 1 text).rest
        || startsWithScale (gather maxSignificand (digitValue b) 1 text).rest) := by
    rw [hrest, startsWithDigit_append _ hmore, startsWithScale_append _ hmore]
  refine ⟨hlength, ?_⟩
  rw [readNumber, if_neg hzero, if_pos hdigit] at hread
  dsimp only at hread
  rw [← hgoesOn] at hread
  split at hread
  · next hmany =>
    obtain ⟨⟨value, after⟩, hresult, hpair⟩ := map_eq_ok hread
    cases hpair
    -- What follows is counted on both sides, so as many digits are dropped as before.
    have hdropped : (gather maxSignificand (digitValue b) 1 (text ++ more)).rest.length
          - (dropDigits (gather maxSignificand (digitValue b) 1 (text ++ more)).rest).val.length
        = (gather maxSignificand (digitValue b) 1 text).rest.length
          - (dropDigits (gather maxSignificand (digitValue b) 1 text).rest).val.length := by
      rw [hdrop, hrest, List.length_append, List.length_append]
      omega
    obtain ⟨le, hresult⟩ := lengthens_readAfterWhole hmore hdrop negative _ _ _ _ hresult
    rw [← hsignificand, ← hdropped] at hresult
    simp only [readNumber, if_neg hzero, if_pos hdigit, if_pos hmany, hresult]
    rfl
  · next hfew =>
    cases hread
    simp only [readNumber, if_neg hzero, if_pos hdigit, if_neg hfew]
    simp only [hsignificand, hrest]

/-- **A number is read the same whatever follows it.** -/
theorem reads_readNumber_append (hmore : Ends more) {negative : Bool} {value : Value}
    {rest : List UInt8} (h : Reads (readNumber negative text) value rest) :
    Reads (readNumber negative (text ++ more)) value (rest ++ more) := by
  cases text with
  | nil =>
    obtain ⟨shorter, hread⟩ := h
    cases hread
  | cons b text =>
    by_cases hzero : b = ascii '0'
    · subst hzero
      exact reads_readNumber_append_zero hmore h
    · by_cases hdigit : isDigit b = true
      · exact reads_readNumber_append_digit hmore hzero hdigit h
      · obtain ⟨shorter, hread⟩ := h
        rw [readNumber, if_neg hzero, if_neg hdigit] at hread
        cases hread

/-! ## Decoders of numbers -/

/-- A value that is a number. -/
def Value.IsNumeric : Value → Prop
  | .integer _ => True
  | .float _ => True
  | _ => False

theorem scalarAt_of_minus {value : Value} {rest : List UInt8}
    (h : Reads (readNumber true text) value rest) : ScalarAt (ascii '-' :: text) value rest := by
  obtain ⟨shorter, hread⟩ := h
  refine ⟨_, text, rfl, ⟨by decide, by decide⟩, by decide, by decide, Nat.le_of_lt shorter, ?_⟩
  rw [readScalar, if_neg (by decide), if_neg (by decide), if_neg (by decide), if_neg (by decide),
    if_pos rfl, hread]
  rfl

theorem scalarAt_of_digit {b : UInt8} (hb : isDigit b = true) {value : Value} {rest : List UInt8}
    (h : Reads (readNumber false (b :: text)) value rest) : ScalarAt (b :: text) value rest := by
  have hne : ∀ other, isDigit other = false → b ≠ other := fun _ hother => ne_of_isDigit hb hother
  obtain ⟨shorter, hread⟩ := h
  refine ⟨b, text, rfl, opens_of_isDigit hb, hne _ (by decide), hne _ (by decide),
    Nat.le_of_lt_succ shorter, ?_⟩
  rw [readScalar, if_neg (hne _ (by decide)), if_neg (hne _ (by decide)),
    if_neg (hne _ (by decide)), if_neg (hne _ (by decide)), if_neg (hne _ (by decide)), if_pos hb,
    hread]
  rfl

theorem not_isNumeric_of_readWord {letters : List Char} {word value : Value} {tail : Tail text}
    (h : readWord letters word text = .ok (value, tail)) (hword : ¬ word.IsNumeric) :
    ¬ value.IsNumeric := by
  obtain ⟨rest, -, hpair⟩ := map_eq_ok h
  obtain ⟨rfl, -⟩ := Prod.mk.inj hpair
  exact hword

/-- A scalar that is a number is read by the reader of numbers. -/
theorem readNumber_of_readScalar {b : UInt8} {value : Value} {tail : Tail text}
    (h : readScalar b text = .ok (value, tail)) (hnumeric : value.IsNumeric) :
    (b = ascii '-' ∧ Reads (readNumber true text) value tail.val) ∨
      (isDigit b = true ∧ Reads (readNumber false (b :: text)) value tail.val) := by
  rw [readScalar] at h
  split at h
  · exact absurd hnumeric (not_isNumeric_of_readWord h id)
  split at h
  · exact absurd hnumeric (not_isNumeric_of_readWord h id)
  split at h
  · exact absurd hnumeric (not_isNumeric_of_readWord h id)
  split at h
  · obtain ⟨read, -, hpair⟩ := map_eq_ok h
    obtain ⟨rfl, -⟩ := Prod.mk.inj hpair
    cases hnumeric
  split at h
  · next hminus =>
    obtain ⟨⟨value, rest, shorter⟩, hread, hpair⟩ := map_eq_ok h
    obtain ⟨rfl, rfl⟩ := Prod.mk.inj hpair
    exact .inl ⟨hminus, shorter, hread⟩
  split at h
  · next hdigit =>
    obtain ⟨⟨value, rest, shorter⟩, hread, hpair⟩ := map_eq_ok h
    obtain ⟨rfl, rfl⟩ := Prod.mk.inj hpair
    exact .inr ⟨hdigit, shorter, hread⟩
  · cases h

/-- A number stands where it did, whatever follows it. -/
theorem scalarAt_append (hmore : Ends more) {b : UInt8} {value : Value} {tail : Tail text}
    (h : readScalar b text = .ok (value, tail)) (hnumeric : value.IsNumeric) :
    ScalarAt (b :: text ++ more) value (tail.val ++ more) := by
  rcases readNumber_of_readScalar h hnumeric with ⟨rfl, hread⟩ | ⟨hdigit, hread⟩
  · exact scalarAt_of_minus (reads_readNumber_append hmore hread)
  · exact scalarAt_of_digit hdigit (reads_readNumber_append hmore hread)

theorem skipBlanks_append_of_ne (h : skipBlanks text ≠ []) (more : List UInt8) :
    skipBlanks (text ++ more) = skipBlanks text ++ more := by
  have hsome : (List.dropWhile isBlank text).isEmpty = false := List.isEmpty_eq_false_iff.2 h
  rw [skipBlanks, List.dropWhile_append, hsome, if_neg Bool.false_ne_true]
  rfl

theorem skipBlanks_append_of_eq_nil (h : skipBlanks text = []) (more : List UInt8) :
    skipBlanks (text ++ more) = skipBlanks more := by
  have hnone : (List.dropWhile isBlank text).isEmpty = true := List.isEmpty_iff.2 h
  rw [skipBlanks, List.dropWhile_append, hnone, if_pos rfl]
  rfl

/-- A document that a decoder of scalars accepts is a scalar with white space around it. -/
theorem exists_scalar_of_decode {α : Type} {expected : String} {pick : Value → Except Cause α}
    {picked : α} (h : decode (Decoder.scalar expected pick) text = .ok picked) :
    ∃ b rest value, ∃ tail : Tail rest, skipBlanks text = b :: rest
      ∧ readScalar b rest = .ok (value, tail) ∧ pick value = .ok picked
      ∧ skipBlanks tail.val = [] := by
  rw [decode] at h
  split at h
  · cases h
  next read hread =>
  split at h
  case h_2 => cases h
  next hend =>
  obtain rfl := Except.ok.inj h
  rw [Decoder.scalar] at hread
  split at hread
  · cases hread
  next b rest hblanks =>
  split at hread
  · cases hread
  split at hread
  · cases hread
  next value tail hscalar =>
  split at hread
  case h_2 => cases hread
  next picked hpicked =>
  cases hread
  exact ⟨b, rest, value, tail, hblanks, hscalar, hpicked, hend⟩

section Documents

variable {α : Type} {expected : String} {pick : Value → Except Cause α} {picked : α}

/-- **A document that is a number is read as the same number inside any other document**, up to what
follows it there. -/
theorem reads_scalar_append (hpick : ∀ value picked, pick value = .ok picked → value.IsNumeric)
    (h : decode (Decoder.scalar expected pick) text = .ok picked) (hmore : Ends more) (limit : Nat)
    {start : List UInt8} (hstart : skipBlanks start = skipBlanks (text ++ more)) :
    ∃ after, skipBlanks after = skipBlanks more ∧
      Reads (Decoder.scalar expected pick limit start) picked after := by
  obtain ⟨b, rest, value, tail, hblanks, hscalar, hpicked, hend⟩ := exists_scalar_of_decode h
  have hat := scalarAt_append hmore hscalar (hpick value picked hpicked)
  rw [skipBlanks_append_of_ne (hblanks ▸ List.cons_ne_nil b rest), hblanks] at hstart
  exact ⟨_, skipBlanks_append_of_eq_nil hend more, reads_scalar hstart hat hpicked⟩

/-- A document that is a number begins like one. -/
theorem opensAt_of_decode (hpick : ∀ value picked, pick value = .ok picked → value.IsNumeric)
    (h : decode (Decoder.scalar expected pick) text = .ok picked) :
    OpensAt (skipBlanks text) := by
  obtain ⟨b, rest, value, tail, hblanks, hscalar, hpicked, -⟩ := exists_scalar_of_decode h
  refine ⟨b, rest, hblanks, ?_⟩
  rcases readNumber_of_readScalar hscalar (hpick value picked hpicked) with ⟨rfl, -⟩ | ⟨hdigit, -⟩
  · exact ⟨by decide, by decide⟩
  · exact opens_of_isDigit hdigit

end Documents

end

end BlockScript.Json
