import BlockScript.Json.Printer
import BlockScript.Json.Scan

/-!
# Scanning what was written

Documents are written as characters and read as bytes.  This file takes a text from the one side to
the other, and says what the scanners do where the writer has put a blank, a bracket, a comma or a
colon.

## What is here

* `Json.bytes` — the bytes of some characters; `Json.toList_toUTF8_ofList` says that a document is
  read as those of its text.
* `Json.skipBlanks_newLine` — white space that was written is skipped.
* `Json.Reads` — a reader gives a value and stops at a text.  Each scanner has a lemma that says
  where it stops.
-/

set_option autoImplicit false
namespace BlockScript.Json

/-! ## Characters as bytes -/

/-- The bytes of some characters. -/
def bytes (chars : List Char) : List UInt8 := chars.flatMap String.utf8EncodeChar

@[simp] theorem bytes_nil : bytes [] = [] := rfl

@[simp] theorem bytes_append (chars more : List Char) :
    bytes (chars ++ more) = bytes chars ++ bytes more := List.flatMap_append

theorem bytes_cons (c : Char) (chars : List Char) :
    bytes (c :: chars) = String.utf8EncodeChar c ++ bytes chars := List.flatMap_cons

theorem toNat_ascii {c : Char} (h : c.toNat < 256) : (ascii c).toNat = c.toNat := by
  rw [ascii, Char.toUInt8, UInt32.toNat_toUInt8]
  exact Nat.mod_eq_of_lt h

theorem ascii_inj {c d : Char} (hc : c.toNat < 256) (hd : d.toNat < 256) (h : ascii c = ascii d) :
    c = d := by
  have hnat := congrArg UInt8.toNat h
  rw [toNat_ascii hc, toNat_ascii hd] at hnat
  exact Char.toNat_inj.1 hnat

theorem utf8EncodeChar_of_lt {c : Char} (h : c.toNat < 128) :
    String.utf8EncodeChar c = [ascii c] := by
  have hsize : c.utf8Size = 1 := by
    rw [Char.utf8Size_eq_one_iff]
    exact UInt32.le_iff_toNat_le.2 (Nat.le_of_lt_succ h)
  exact String.utf8EncodeChar_eq_singleton hsize

theorem bytes_cons_of_lt {c : Char} (h : c.toNat < 128) (chars : List Char) :
    bytes (c :: chars) = ascii c :: bytes chars := by
  rw [bytes_cons, utf8EncodeChar_of_lt h]
  rfl

/-- ASCII characters are one byte each. -/
theorem bytes_of_lt {chars : List Char} (h : ∀ c ∈ chars, c.toNat < 128) :
    bytes chars = chars.map ascii := by
  induction chars with
  | nil => rfl
  | cons c chars ih =>
    rw [bytes_cons_of_lt (h c (by simp)), ih fun other hmem => h other (by simp [hmem])]
    rfl

theorem toList_loop_eq (array : ByteArray) (start : Nat) (earlier : List UInt8) :
    ByteArray.toList.loop array start earlier
      = earlier.reverse ++ array.data.toList.drop start := by
  fun_induction ByteArray.toList.loop array start earlier with
  | case1 start earlier hlt ih =>
    have hdrop : array.data.toList.drop start
        = array.get! start :: array.data.toList.drop (start + 1) := by
      have hsize : start < array.data.toList.length := by simpa using hlt
      rw [List.drop_eq_getElem_cons hsize]
      congr 1
      have hbound : start < array.data.size := by simpa using hsize
      simp only [Array.getElem_toList]
      exact (getElem!_pos array.data start hbound).symm
    rw [ih, hdrop]
    simp
  | case2 start earlier hge =>
    have hsize : array.data.toList.length ≤ start := by simpa using hge
    rw [List.drop_eq_nil_of_le hsize, List.append_nil]

theorem toList_eq_toList_data (array : ByteArray) : array.toList = array.data.toList := by
  rw [ByteArray.toList, toList_loop_eq]
  rfl

/-- **A document is read as the bytes of its characters.** -/
theorem toList_toUTF8_ofList (chars : List Char) :
    (String.ofList chars).toUTF8.toList = bytes chars := by
  rw [String.toUTF8_eq_toByteArray, String.toByteArray_ofList, toList_eq_toList_data,
    List.utf8Encode, List.toList_data_toByteArray]
  rfl

theorem toList_toUTF8 (text : String) : text.toUTF8.toList = bytes text.toList := by
  rw [← toList_toUTF8_ofList, String.ofList_toList]

/-! ## Blanks -/

theorem skipBlanks_of_not_isBlank {b : UInt8} (h : isBlank b = false) (rest : List UInt8) :
    skipBlanks (b :: rest) = b :: rest := by
  rw [skipBlanks, List.dropWhile_cons_of_neg (by simp [h])]

theorem skipBlanks_space (rest : List UInt8) :
    skipBlanks (ascii ' ' :: rest) = skipBlanks rest := rfl

/-- White space at the start of a line is skipped. -/
theorem skipBlanks_newLine (depth : Nat) (rest : List Char) :
    skipBlanks (bytes (Value.newLine depth rest)) = skipBlanks (bytes rest) := by
  have hspaces : ∀ n : Nat,
      skipBlanks (bytes (List.replicate n ' ' ++ rest)) = skipBlanks (bytes rest) := by
    intro n
    induction n with
    | zero => rfl
    | succ n ih => rw [List.replicate_succ, List.cons_append, bytes_cons_of_lt (by decide),
        skipBlanks_space, ih]
  rw [Value.newLine, bytes_cons_of_lt (by decide)]
  exact hspaces (2 * depth)

/-! ## Scanners -/

/-- A reader gives a value and stops at a text. -/
def Reads {α : Type} {text : List UInt8} (result : Except Fault (Read α text)) (value : α)
    (rest : List UInt8) : Prop :=
  ∃ shorter, result = .ok ⟨value, rest, shorter⟩

/-- The next item of a list begins at a text. -/
def ItemAt (first : Bool) (text start : List UInt8) : Prop :=
  ∃ shorter, nextItem? first text = .ok (some ⟨start, shorter⟩)

/-- The next key of an object begins at a text, its opening quote left out. -/
def KeyAt (first : Bool) (text start : List UInt8) : Prop :=
  ∃ shorter, nextKey? first text = .ok (some ⟨start, shorter⟩)

section Scanners

variable {text rest after : List UInt8} {b : UInt8}

/-- Before an item a list does not end, and the first item stands where it begins. -/
theorem itemAt_first (h : skipBlanks text = b :: rest) (hopen : b ≠ ascii ']') :
    ItemAt true text (b :: rest) := by
  refine ⟨length_le_of_skipBlanks h, ?_⟩
  rw [nextItem?]
  split
  case h_1 hnil => exact absurd (h.symm.trans hnil) (List.cons_ne_nil _ _)
  case h_2 c other hcons =>
    obtain ⟨rfl, rfl⟩ := List.cons.inj (h.symm.trans hcons)
    rw [if_neg hopen, if_pos rfl]

/-- A further item begins after a comma. -/
theorem itemAt_comma (h : skipBlanks text = ascii ',' :: rest)
    (hnext : skipBlanks rest = b :: after) (hopen : b ≠ ascii ']') :
    ItemAt false text (b :: after) := by
  refine ⟨Nat.le_trans (length_le_of_skipBlanks hnext) (length_tail_le_of_skipBlanks h), ?_⟩
  rw [nextItem?]
  split
  case h_1 hnil => exact absurd (h.symm.trans hnil) (List.cons_ne_nil _ _)
  case h_2 c other hcons =>
    obtain ⟨rfl, rfl⟩ := List.cons.inj (h.symm.trans hcons)
    rw [if_neg (by decide), if_neg (by decide), if_pos rfl]
    split
    case h_1 hnil => exact absurd (hnext.symm.trans hnil) (List.cons_ne_nil _ _)
    case h_2 d last hlast =>
      obtain ⟨rfl, rfl⟩ := List.cons.inj (hnext.symm.trans hlast)
      rw [if_neg hopen]

/-- At the closing bracket there is no further item. -/
theorem nextItem?_of_close (first : Bool) (h : skipBlanks text = ascii ']' :: rest) :
    nextItem? first text = .ok none := by
  rw [nextItem?]
  split
  case h_1 hnil => exact absurd (h.symm.trans hnil) (List.cons_ne_nil _ _)
  case h_2 c other hcons =>
    obtain ⟨rfl, -⟩ := List.cons.inj (h.symm.trans hcons)
    rw [if_pos rfl]

theorem reads_closeList (h : skipBlanks text = ascii ']' :: rest) :
    Reads (closeList text) () rest := by
  refine ⟨length_lt_of_skipBlanks h, ?_⟩
  rw [closeList]
  split
  case h_1 hnil => exact absurd (h.symm.trans hnil) (List.cons_ne_nil _ _)
  case h_2 c other hcons =>
    obtain ⟨rfl, rfl⟩ := List.cons.inj (h.symm.trans hcons)
    rw [if_pos rfl]

/-- The first key stands where an object begins. -/
theorem keyAt_first (h : skipBlanks text = ascii '\x22' :: rest) : KeyAt true text rest := by
  refine ⟨length_tail_le_of_skipBlanks h, ?_⟩
  rw [nextKey?]
  split
  case h_1 hnil => exact absurd (h.symm.trans hnil) (List.cons_ne_nil _ _)
  case h_2 c other hcons =>
    obtain ⟨rfl, rfl⟩ := List.cons.inj (h.symm.trans hcons)
    rw [if_neg (by decide), if_pos rfl, if_pos rfl]

/-- A further key begins after a comma. -/
theorem keyAt_comma (h : skipBlanks text = ascii ',' :: rest)
    (hnext : skipBlanks rest = ascii '\x22' :: after) : KeyAt false text after := by
  refine ⟨Nat.le_of_lt (Nat.lt_trans (length_lt_of_skipBlanks hnext) (length_lt_of_skipBlanks h)),
    ?_⟩
  rw [nextKey?]
  split
  case h_1 hnil => exact absurd (h.symm.trans hnil) (List.cons_ne_nil _ _)
  case h_2 c other hcons =>
    obtain ⟨rfl, rfl⟩ := List.cons.inj (h.symm.trans hcons)
    rw [if_neg (by decide), if_neg (by decide), if_pos rfl]
    split
    case h_1 hnil => exact absurd (hnext.symm.trans hnil) (List.cons_ne_nil _ _)
    case h_2 d last hlast =>
      obtain ⟨rfl, rfl⟩ := List.cons.inj (hnext.symm.trans hlast)
      rw [if_pos rfl]

/-- At the closing brace there is no further key. -/
theorem nextKey?_of_close (first : Bool) (h : skipBlanks text = ascii '\x7d' :: rest) :
    nextKey? first text = .ok none := by
  rw [nextKey?]
  split
  case h_1 hnil => exact absurd (h.symm.trans hnil) (List.cons_ne_nil _ _)
  case h_2 c other hcons =>
    obtain ⟨rfl, -⟩ := List.cons.inj (h.symm.trans hcons)
    rw [if_pos rfl]

theorem reads_colon (h : skipBlanks text = ascii ':' :: rest) : Reads (colon text) () rest := by
  refine ⟨length_lt_of_skipBlanks h, ?_⟩
  rw [colon]
  split
  case h_1 hnil => exact absurd (h.symm.trans hnil) (List.cons_ne_nil _ _)
  case h_2 c other hcons =>
    obtain ⟨rfl, rfl⟩ := List.cons.inj (h.symm.trans hcons)
    rw [if_pos rfl]

theorem reads_closeObject (h : skipBlanks text = ascii '\x7d' :: rest) :
    Reads (closeObject text) () rest := by
  refine ⟨length_lt_of_skipBlanks h, ?_⟩
  rw [closeObject]
  split
  case h_1 hnil => exact absurd (h.symm.trans hnil) (List.cons_ne_nil _ _)
  case h_2 c other hcons =>
    obtain ⟨rfl, rfl⟩ := List.cons.inj (h.symm.trans hcons)
    rw [if_pos rfl]

end Scanners

end BlockScript.Json
