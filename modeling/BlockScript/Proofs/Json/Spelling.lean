import BlockScript.Proofs.Json.Skipping

/-!
# Strings in every spelling

A character can be written in a string in several ways: for itself, with the letter of an escape,
by its number, or as a pair of numbers.  Each of them is read as the bytes that encode the
character, so that a string is read as the characters it has, however they are written.

## What is here

* `Json.reads_readEscape_spelling` — what follows a backslash is read as the character meant.
* `Json.reads_readString_spells` — **a string is read as what it spells**.
-/

set_option autoImplicit false
namespace BlockScript.Json

section

variable {c : Char} {back : List UInt8}

/-- A character is not half of a pair. -/
theorem isSurrogate_toNat (c : Char) :
    isLowSurrogate c.toNat = false ∧ isHighSurrogate c.toNat = false := by
  have hvalid : c.toNat < 0xd800 ∨ (0xdfff < c.toNat ∧ c.toNat < 0x110000) := c.valid
  rw [isLowSurrogate, isHighSurrogate]
  simp only [Bool.and_eq_false_iff, decide_eq_false_iff_not]
  omega

theorem reads_readCodePoint_code {digits : List Char} (hdigits : HexDigits c.toNat digits) :
    Reads (readCodePoint (bytes digits ++ back)) c back := by
  obtain ⟨shorter, hread⟩ := reads_readHex_digits hdigits back
  obtain ⟨hlow, hhigh⟩ := isSurrogate_toNat c
  refine ⟨shorter, ?_⟩
  rw [readCodePoint, hread]
  simp [bind, Except.bind, hlow, hhigh]

theorem reads_readLowSurrogate {low : Nat} (hlow : low < 0x400) {digits : List Char}
    (hdigits : HexDigits (0xdc00 + low) digits) (back : List UInt8) :
    Reads (readLowSurrogate (ascii '\\' :: ascii 'u' :: (bytes digits ++ back))) (0xdc00 + low)
      back := by
  obtain ⟨shorter, hread⟩ := reads_readHex_digits hdigits back
  have hhalf : isLowSurrogate (0xdc00 + low) = true := by
    rw [isLowSurrogate]
    simp only [Bool.and_eq_true, decide_eq_true_eq]
    omega
  refine ⟨by simp only [List.length_cons]; omega, ?_⟩
  rw [readLowSurrogate, if_pos rfl]
  simp only [if_true, hread, bind, Except.bind, hhalf]

theorem reads_readCodePoint_pair {high low : Nat} (hhigh : high < 0x400) (hlow : low < 0x400)
    (hc : c.toNat = 0x10000 + high * 0x400 + low) {highDigits lowDigits : List Char}
    (hhighDigits : HexDigits (0xd800 + high) highDigits)
    (hlowDigits : HexDigits (0xdc00 + low) lowDigits) :
    Reads (readCodePoint (bytes highDigits
      ++ ascii '\\' :: ascii 'u' :: (bytes lowDigits ++ back))) c back := by
  obtain ⟨shorter, hread⟩ := reads_readHex_digits hhighDigits
    (ascii '\\' :: ascii 'u' :: (bytes lowDigits ++ back))
  obtain ⟨shorterLow, hreadLow⟩ := reads_readLowSurrogate hlow hlowDigits back
  have hnotLow : isLowSurrogate (0xd800 + high) = false := by
    rw [isLowSurrogate]
    simp only [Bool.and_eq_false_iff, decide_eq_false_iff_not]
    omega
  have hhalf : isHighSurrogate (0xd800 + high) = true := by
    rw [isHighSurrogate]
    simp only [Bool.and_eq_true, decide_eq_true_eq]
    omega
  have hvalue : 0x10000 + (0xd800 + high - 0xd800) * 1024 + (0xdc00 + low - 0xdc00) = c.toNat := by
    omega
  refine ⟨by omega, ?_⟩
  rw [readCodePoint, hread]
  simp only [bind, Except.bind, hnotLow, hhalf, Bool.false_eq_true, if_false, if_true, hreadLow,
    hvalue, Char.ofNat_toNat]

theorem reads_readEscape_code {text : List UInt8} (h : Reads (readCodePoint text) c back) :
    Reads (readEscape (ascii 'u' :: text)) (String.utf8EncodeChar c) back := by
  obtain ⟨shorter, hread⟩ := h
  refine ⟨Nat.lt_succ_of_lt shorter, ?_⟩
  rw [readEscape, if_pos rfl, hread]
  rfl

/-- What follows a backslash is read as the bytes of the character that is meant. -/
theorem reads_readEscape_spelling {spelling : List Char} (h : Spelling c ('\\' :: spelling)) :
    Reads (readEscape (bytes spelling ++ back)) (String.utf8EncodeChar c) back := by
  generalize hwhole : '\\' :: spelling = whole at h
  cases h with
  | plain hplain =>
    obtain ⟨rfl, -⟩ := List.cons.inj hwhole
    exact absurd rfl hplain.ne_backslash
  | @letter letter hletter =>
    have hall : ∀ pair ∈ escapes, pair.1.toNat < 128 ∧ pair.2.toNat < 128
        ∧ ascii pair.1 ≠ ascii 'u' ∧ escaped? (ascii pair.1) = some (ascii pair.2) := by decide
    obtain ⟨hascii, hc, hu, hescaped⟩ := hall _ hletter
    obtain ⟨-, rfl⟩ := List.cons.inj hwhole
    rw [bytes_cons_of_lt hascii, utf8EncodeChar_of_lt hc]
    exact reads_readEscape hu hescaped back
  | code hdigits =>
    obtain ⟨-, rfl⟩ := List.cons.inj hwhole
    rw [bytes_cons_of_lt (by decide), List.cons_append]
    exact reads_readEscape_code (reads_readCodePoint_code hdigits)
  | pair hhigh hlow hc hhighDigits hlowDigits =>
    obtain ⟨-, rfl⟩ := List.cons.inj hwhole
    rw [bytes_cons_of_lt (by decide), bytes_append, bytes_cons_of_lt (by decide),
      bytes_cons_of_lt (by decide), List.cons_append, List.append_assoc, List.cons_append,
      List.cons_append]
    exact reads_readEscape_code (reads_readCodePoint_pair hhigh hlow hc hhighDigits hlowDigits)

/-- A character that does not stand for itself is written with a backslash. -/
theorem Spelling.plain_or {spelling : List Char} (h : Spelling c spelling) :
    (StandsForItself c ∧ spelling = [c]) ∨ ∃ rest, spelling = '\\' :: rest := by
  cases h with
  | plain hplain => exact .inl ⟨hplain, rfl⟩
  | letter hletter => exact .inr ⟨_, rfl⟩
  | code hdigits => exact .inr ⟨_, rfl⟩
  | pair hhigh hlow hc hhighDigits hlowDigits => exact .inr ⟨_, rfl⟩

/-- A character is read as its bytes, however it is written. -/
theorem readBytes_spelling {whole : List UInt8} (before : ByteArray) {spelling : List Char}
    (h : Spelling c spelling) (hle : (bytes spelling ++ back).length ≤ whole.length)
    (hback : back.length ≤ whole.length) :
    readBytes before (bytes spelling ++ back) hle
      = readBytes ((String.utf8EncodeChar c).foldl ByteArray.push before) back hback := by
  rcases h.plain_or with ⟨hplain, rfl⟩ | ⟨rest, rfl⟩
  · revert hle
    rw [bytes_cons, bytes_nil, List.append_nil]
    intro hle
    exact readBytes_plains before hplain.plain_bytes hle hback
  · revert hle
    rw [bytes_cons_of_lt (by decide)]
    intro hle
    exact readBytes_backslash before (reads_readEscape_spelling h) hle hback

theorem reads_readBytes_spells {whole : List UInt8} {chars body : List Char}
    (h : Spells chars body) (before : ByteArray)
    (hle : (bytes body ++ ascii '\x22' :: back).length ≤ whole.length) :
    Reads (readBytes before (bytes body ++ ascii '\x22' :: back) hle)
      ((bytes chars).foldl ByteArray.push before) back := by
  induction h generalizing before with
  | nil =>
    have hclose : (ascii '\x22' :: back).length ≤ whole.length := hle
    have hread : Reads (readBytes before (ascii '\x22' :: back) hclose) before back := by
      refine ⟨hclose, ?_⟩
      rw [readBytes, if_pos rfl]
    exact hread
  | @cons c chars spelling body hc hchars ih =>
    revert hle
    rw [bytes_append, List.append_assoc]
    intro hle
    have hshort : (bytes body ++ ascii '\x22' :: back).length ≤ whole.length := by
      rw [List.length_append] at hle
      omega
    rw [readBytes_spelling before hc hle hshort, bytes_cons, List.foldl_append]
    exact ih _ hshort

/-- **A string is read as what it spells**, up to its closing quote. -/
theorem reads_readString_spells {text : String} {body : List Char}
    (h : Spells text.toList body) :
    Reads (readString (bytes body ++ ascii '\x22' :: back)) text back := by
  obtain ⟨shorter, hread⟩ := reads_readBytes_spells h .empty (length_le_self _)
  refine ⟨shorter, ?_⟩
  rw [readString, hread]
  simp only [bind, Except.bind, fromUTF8?_foldl_push]

end

end BlockScript.Json
