import BlockScript.Json.Quoted
import BlockScript.Proofs.Json.Scanning

/-!
# Strings that were written

A string is written character by character, and read byte by byte.  Each character as it is written
is read as the bytes that encode it, whether it stands for itself, has an escape letter of its own
or is written as a number.  So the reader gathers the encoding of the whole text, which is valid.

## What is here

* `Json.Written` — the ways in which a character is written; `Json.readBytes_written` reads it.
* `Json.reads_readString` — a whole string up to its closing quote.
-/

set_option autoImplicit false
namespace BlockScript.Json

/-! ## Bytes -/

/-- A byte that stands for itself inside a string. -/
structure Plain (b : UInt8) : Prop where
  ne_quote : b ≠ ascii '\x22'
  ne_backslash : b ≠ ascii '\\'
  not_control : ¬ b < 0x20

theorem Plain.of_le {b : UInt8} (h : 128 ≤ b.toNat) : Plain b where
  ne_quote := fun heq => absurd (heq ▸ h) (by decide)
  ne_backslash := fun heq => absurd (heq ▸ h) (by decide)
  not_control := fun hlt => by
    have hnat : b.toNat < 32 := UInt8.lt_iff_toNat_lt.1 hlt
    omega

/-- Every byte of a character that is not ASCII is in the upper half. -/
theorem le_of_mem_utf8EncodeChar {c : Char} (h : 128 ≤ c.toNat) {b : UInt8}
    (hmem : b ∈ String.utf8EncodeChar c) : 128 ≤ b.toNat := by
  have hnot : ¬ c.val.toNat ≤ 127 := Nat.not_le.2 h
  simp only [String.utf8EncodeChar, if_neg hnot] at hmem
  split at hmem
  · simp only [List.mem_cons, List.not_mem_nil, or_false] at hmem
    rcases hmem with rfl | rfl <;> rw [UInt8.toNat_ofNat'] <;> omega
  · split at hmem
    · simp only [List.mem_cons, List.not_mem_nil, or_false] at hmem
      rcases hmem with rfl | rfl | rfl <;> rw [UInt8.toNat_ofNat'] <;> omega
    · simp only [List.mem_cons, List.not_mem_nil, or_false] at hmem
      rcases hmem with rfl | rfl | rfl | rfl <;> rw [UInt8.toNat_ofNat'] <;> omega

/-- A character without an escape is written with bytes that stand for themselves. -/
theorem plain_of_mem_utf8EncodeChar {c : Char} (hquote : c ≠ '\x22') (hslash : c ≠ '\\')
    (hcontrol : ¬ c.toNat < 0x20) {b : UInt8} (hmem : b ∈ String.utf8EncodeChar c) : Plain b := by
  by_cases hascii : c.toNat < 128
  · rw [utf8EncodeChar_of_lt hascii, List.mem_singleton] at hmem
    subst hmem
    have hbyte : c.toNat < 256 := by omega
    refine ⟨fun heq => hquote (ascii_inj hbyte (by decide) heq),
      fun heq => hslash (ascii_inj hbyte (by decide) heq), fun hlt => hcontrol ?_⟩
    have hnat := UInt8.lt_iff_toNat_lt.1 hlt
    rwa [toNat_ascii hbyte] at hnat
  · exact .of_le (le_of_mem_utf8EncodeChar (Nat.not_lt.1 hascii) hmem)

/-! ## Reading one character -/

section Characters

variable {whole : List UInt8} (before : ByteArray)

theorem readBytes_plain {b : UInt8} (hplain : Plain b) {text : List UInt8}
    (h : (b :: text).length ≤ whole.length) (htext : text.length ≤ whole.length) :
    readBytes before (b :: text) h = readBytes (before.push b) text htext := by
  rw [readBytes, if_neg hplain.ne_quote, if_neg hplain.ne_backslash, if_neg hplain.not_control]

theorem readBytes_plains {plains : List UInt8} (hplain : ∀ b ∈ plains, Plain b)
    {text : List UInt8} (h : (plains ++ text).length ≤ whole.length)
    (htext : text.length ≤ whole.length) :
    readBytes before (plains ++ text) h
      = readBytes (plains.foldl ByteArray.push before) text htext := by
  induction plains generalizing before with
  | nil => rfl
  | cons b plains ih =>
    have hshort : (plains ++ text).length ≤ whole.length := by
      simp only [List.cons_append, List.length_cons] at h
      omega
    rw [List.foldl_cons, ← ih _ fun other hmem => hplain other (List.mem_cons_of_mem _ hmem)]
    exact readBytes_plain before (hplain b List.mem_cons_self) h hshort

/-- After a backslash the bytes that the escape stands for are taken. -/
theorem readBytes_backslash {start after encoded : List UInt8}
    (hescape : Reads (readEscape start) encoded after)
    (h : (ascii '\\' :: start).length ≤ whole.length) (hafter : after.length ≤ whole.length) :
    readBytes before (ascii '\\' :: start) h
      = readBytes (encoded.foldl ByteArray.push before) after hafter := by
  obtain ⟨shorter, hescape⟩ := hescape
  rw [readBytes, if_neg (by decide), if_pos rfl]
  simp only [hescape]

/-- An escape letter stands for a byte. -/
theorem reads_readEscape {b byte : UInt8} (hletter : b ≠ ascii 'u') (h : escaped? b = some byte)
    (text : List UInt8) : Reads (readEscape (b :: text)) [byte] text := by
  refine ⟨length_lt_cons b text, ?_⟩
  rw [readEscape, if_neg hletter]
  simp only [h]

theorem hexDigit?_ascii_digitChar : ∀ n < 16, hexDigit? (ascii (Nat.digitChar n)) = some n := by
  decide

/-- Two digits after two zeros give a number below 256. -/
theorem reads_readHex {n : Nat} (h : n < 256) (text : List UInt8) :
    Reads (readHex (ascii '0' :: ascii '0' :: ascii (Nat.digitChar (n / 16))
      :: ascii (Nat.digitChar (n % 16)) :: text)) n text := by
  have hzero : hexDigit? (ascii '0') = some 0 := hexDigit?_ascii_digitChar 0 (by decide)
  have hhigh := hexDigit?_ascii_digitChar (n / 16) (by omega)
  have hlow := hexDigit?_ascii_digitChar (n % 16) (by omega)
  have hvalue : ((0 * 16 + 0) * 16 + n / 16) * 16 + n % 16 = n := by omega
  refine ⟨by simp only [List.length_cons]; omega, ?_⟩
  rw [readHex, hzero, hhigh, hlow]
  simp only [hvalue]

theorem reads_readCodePoint {c : Char} (hcontrol : c.toNat < 0x20) {start text : List UInt8}
    (hdigits : Reads (readHex start) c.toNat text) : Reads (readCodePoint start) c text := by
  obtain ⟨shorter, hdigits⟩ := hdigits
  have hlow : isLowSurrogate c.toNat = false := by
    rw [isLowSurrogate, decide_eq_false (by omega), Bool.false_and]
  have hhigh : isHighSurrogate c.toNat = false := by
    rw [isHighSurrogate, decide_eq_false (by omega), Bool.false_and]
  refine ⟨shorter, ?_⟩
  rw [readCodePoint, hdigits]
  simp [bind, Except.bind, hlow, hhigh]

/-- A control character without an escape letter is written with four digits. -/
theorem reads_readEscape_digits {c : Char} (hcontrol : c.toNat < 0x20) (text : List UInt8) :
    Reads (readEscape (ascii 'u' :: ascii '0' :: ascii '0'
        :: ascii (Nat.digitChar (c.toNat / 16)) :: ascii (Nat.digitChar (c.toNat % 16)) :: text))
      (String.utf8EncodeChar c) text := by
  have hbyte : c.toNat < 256 := by omega
  obtain ⟨shorter, hread⟩ := reads_readCodePoint hcontrol (reads_readHex hbyte text)
  refine ⟨Nat.lt_succ_of_lt shorter, ?_⟩
  rw [readEscape, if_pos rfl, hread]
  rfl

/-- The ways in which a character is written inside a string. -/
inductive Written (c : Char) : List Char → Prop where
  | letter (letter : Char) (hascii : letter.toNat < 128) (hletter : ascii letter ≠ ascii 'u')
    (hescaped : escaped? (ascii letter) = some (ascii c)) (hc : c.toNat < 128) :
    Written c ['\\', letter]
  | digits (hcontrol : c.toNat < 0x20) :
    Written c ['\\', 'u', '0', '0', Nat.digitChar (c.toNat / 16), Nat.digitChar (c.toNat % 16)]
  | plain (hplain : ∀ b ∈ String.utf8EncodeChar c, Plain b) : Written c [c]

/-- A character with an escape letter of its own is written with it. -/
theorem Written.of_eq {c d letter : Char} (h : c = d) (hascii : letter.toNat < 128)
    (hletter : ascii letter ≠ ascii 'u') (hescaped : escaped? (ascii letter) = some (ascii d))
    (hd : d.toNat < 128) : Written c ['\\', letter] := by
  subst h
  exact .letter letter hascii hletter hescaped hd

theorem written_quoteChar (c : Char) : Written c (quoteChar c) := by
  unfold quoteChar
  split
  case isTrue h =>
    subst h
    exact .letter _ (by decide) (by decide) rfl (by decide)
  case isFalse hquote =>
    split
    case isTrue h => exact .of_eq h (by decide) (by decide) rfl (by decide)
    case isFalse hslash =>
      split
      case isTrue h => exact .of_eq h (by decide) (by decide) rfl (by decide)
      split
      case isTrue h => exact .of_eq h (by decide) (by decide) rfl (by decide)
      split
      case isTrue h => exact .of_eq h (by decide) (by decide) rfl (by decide)
      split
      case isTrue h => exact .of_eq h (by decide) (by decide) rfl (by decide)
      split
      case isTrue h => exact .of_eq h (by decide) (by decide) rfl (by decide)
      split
      case isTrue hcontrol => exact .digits hcontrol
      case isFalse hcontrol =>
        refine .plain ?_
        intro b hmem
        exact plain_of_mem_utf8EncodeChar hquote hslash hcontrol hmem

/-- **A character that was written is read as the bytes that encode it.** -/
theorem readBytes_written {c : Char} {chars : List Char} (hwritten : Written c chars)
    {text : List UInt8} (h : (bytes chars ++ text).length ≤ whole.length)
    (htext : text.length ≤ whole.length) :
    readBytes before (bytes chars ++ text) h
      = readBytes ((String.utf8EncodeChar c).foldl ByteArray.push before) text htext := by
  cases hwritten with
  | letter letter hascii hletter hescaped hc =>
    rw [utf8EncodeChar_of_lt hc]
    revert h
    rw [bytes_cons_of_lt (by decide), bytes_cons_of_lt hascii]
    intro h
    exact readBytes_backslash before (reads_readEscape hletter hescaped text) h htext
  | digits hcontrol =>
    have hdigit : ∀ n < 16, (Nat.digitChar n).toNat < 128 := by decide
    revert h
    rw [bytes_cons_of_lt (by decide), bytes_cons_of_lt (by decide), bytes_cons_of_lt (by decide),
      bytes_cons_of_lt (by decide), bytes_cons_of_lt (hdigit _ (by omega)),
      bytes_cons_of_lt (hdigit _ (by omega))]
    intro h
    exact readBytes_backslash before (reads_readEscape_digits hcontrol text) h htext
  | plain hplain =>
    revert h
    rw [bytes_cons, bytes_nil, List.append_nil]
    intro h
    exact readBytes_plains before hplain h htext

end Characters

/-! ## Whole strings -/

theorem reads_readBytes {whole : List UInt8} (chars : List Char) (before : ByteArray)
    (rest : List UInt8)
    (h : (bytes (chars.flatMap quoteChar) ++ ascii '\x22' :: rest).length ≤ whole.length) :
    Reads (readBytes before (bytes (chars.flatMap quoteChar) ++ ascii '\x22' :: rest) h)
      ((bytes chars).foldl ByteArray.push before) rest := by
  induction chars generalizing before with
  | nil =>
    have hclose : (ascii '\x22' :: rest).length ≤ whole.length := h
    have hread : Reads (readBytes before (ascii '\x22' :: rest) hclose) before rest := by
      refine ⟨hclose, ?_⟩
      rw [readBytes, if_pos rfl]
    exact hread
  | cons c chars ih =>
    revert h
    rw [List.flatMap_cons, bytes_append, List.append_assoc]
    intro h
    have hshort : (bytes (chars.flatMap quoteChar) ++ ascii '\x22' :: rest).length
        ≤ whole.length := by
      rw [List.length_append] at h
      omega
    rw [readBytes_written before (written_quoteChar c) h hshort, bytes_cons, List.foldl_append]
    exact ih _ hshort

theorem toList_data_foldl_push (some : List UInt8) (before : ByteArray) :
    (some.foldl ByteArray.push before).data.toList = before.data.toList ++ some := by
  induction some generalizing before with
  | nil => exact (List.append_nil _).symm
  | cons b some ih =>
    rw [List.foldl_cons, ih, ByteArray.data_push, Array.toList_push, List.append_assoc]
    rfl

/-- The bytes of a text are those that encode it. -/
theorem fromUTF8?_foldl_push (text : String) :
    String.fromUTF8? ((bytes text.toList).foldl ByteArray.push .empty) = some text := by
  have hbytes : (bytes text.toList).foldl ByteArray.push .empty = text.toByteArray := by
    apply ByteArray.ext
    apply Array.toList_inj.1
    rw [toList_data_foldl_push, ← toList_eq_toList_data text.toByteArray,
      ← String.toUTF8_eq_toByteArray, ← toList_toUTF8_ofList, String.ofList_toList]
    rfl
  rw [hbytes, String.fromUTF8?, dif_pos text.isValidUTF8]
  rfl

/-- **A string that was written is read up to its closing quote.** -/
theorem reads_readString (text : String) (rest : List UInt8) :
    Reads (readString (bytes (text.toList.flatMap quoteChar) ++ ascii '\x22' :: rest)) text
      rest := by
  obtain ⟨shorter, hread⟩ := reads_readBytes text.toList .empty rest (length_le_self _)
  refine ⟨shorter, ?_⟩
  rw [readString, hread]
  simp only [bind, Except.bind, fromUTF8?_foldl_push]

end BlockScript.Json
