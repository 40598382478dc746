import Gnuais.Lib.Numeral
import Mathlib.Data.List.Chain
import Mathlib.Data.List.TakeWhile

/-!
# The tokens of a JSON text

The lexical half of RFC 8259: a text is bytes in UTF-8, and falls into blanks,
structural characters, literals, strings and numbers.

* `isUtf8` — the byte sequences that are UTF-8, by a machine that counts the bytes a
  character still needs.
* `stringBody` — a string from behind its quotation mark, with its escapes undone.
* `lex` — the tokens of a text. Every step takes a byte at least, so as many steps
  as bytes are enough.
* `Piece` — what a writer puts together that escapes nothing. `lex_text_iff` says
  when a text written this way has the tokens that were meant: when no string in it
  needed an escape (`Unescaped`).
-/

namespace Json

/-! ## UTF-8

The first byte of a character tells how many follow, and narrows the range of the second
where a longer form than needed, a surrogate or a number that is too large would be
possible. -/

/-- What the rest of a character needs: so many bytes, the next between two bounds. -/
structure Utf8 where
  /-- 0 between two characters -/
  need : ℕ
  /-- the least the next byte may be -/
  low : UInt8
  /-- and the largest -/
  high : UInt8
  deriving DecidableEq, Repr

namespace Utf8

/-- Between two characters. -/
def start : Utf8 := ⟨0, 0x80, 0xBF⟩

/-- So many bytes of no further restriction. -/
def tail (n : ℕ) : Utf8 := ⟨n, 0x80, 0xBF⟩

/-- The first byte of a character. -/
def first (c : UInt8) : Option Utf8 :=
  if c < 0x80 then some start
  else if 0xC2 ≤ c ∧ c ≤ 0xDF then some (tail 1)
  else if c = 0xE0 then some ⟨2, 0xA0, 0xBF⟩
  else if c = 0xED then some ⟨2, 0x80, 0x9F⟩
  else if 0xE1 ≤ c ∧ c ≤ 0xEF then some (tail 2)
  else if c = 0xF0 then some ⟨3, 0x90, 0xBF⟩
  else if 0xF1 ≤ c ∧ c ≤ 0xF3 then some (tail 3)
  else if c = 0xF4 then some ⟨3, 0x80, 0x8F⟩
  else none

/-- One byte. -/
def next (u : Utf8) (c : UInt8) : Option Utf8 :=
  match u.need with
  | 0 => first c
  | n + 1 => if u.low ≤ c ∧ c ≤ u.high then some (tail n) else none

end Utf8

/-- The bytes are the UTF-8 form of a text. -/
def isUtf8 (bytes : List UInt8) : Bool := bytes.foldlM Utf8.next Utf8.start = some Utf8.start

/-! ## Strings

A string ends at the first quotation mark that is not part of an escape. The value is
computed on the way. -/

/-- The bytes of a character. -/
def utf8Encode (n : ℕ) : List UInt8 := String.utf8EncodeChar (Char.ofNat n)

/-- The value of a hexadecimal digit. -/
def hexValue (c : UInt8) : Option ℕ :=
  if 48 ≤ c ∧ c ≤ 57 then some (c.toNat - 48)
  else if 65 ≤ c ∧ c ≤ 70 then some (c.toNat - 55)
  else if 97 ≤ c ∧ c ≤ 102 then some (c.toNat - 87)
  else none

/-- Four hexadecimal digits, and what stands behind them. -/
def hex4 : List UInt8 → Option (ℕ × List UInt8)
  | a :: b :: c :: d :: rest => do
    let a ← hexValue a
    let b ← hexValue b
    let c ← hexValue c
    let d ← hexValue d
    return (((a * 16 + b) * 16 + c) * 16 + d, rest)
  | _ => none

/-- The second half of a surrogate pair, if it follows. -/
def lowSurrogate : List UInt8 → Option (ℕ × List UInt8)
  | 92 :: 117 :: cs => do
    let (u, rest) ← hex4 cs
    if 0xDC00 ≤ u ∧ u < 0xE000 then some (u, rest) else none
  | _ => none

/-- The character of a code unit; half a surrogate pair stands for U+FFFD. -/
def codeUnit (u : ℕ) (rest : List UInt8) : List UInt8 × List UInt8 :=
  if 0xD800 ≤ u ∧ u < 0xDC00 then
    match lowSurrogate rest with
    | some (l, rest) => (utf8Encode (0x10000 + (u - 0xD800) * 0x400 + (l - 0xDC00)), rest)
    | none => (utf8Encode 0xFFFD, rest)
  else if 0xDC00 ≤ u ∧ u < 0xE000 then (utf8Encode 0xFFFD, rest)
  else (utf8Encode u, rest)

/-- What stands for a character behind a backslash. -/
def escapes : List (UInt8 × UInt8) :=
  [(34, 34), (92, 92), (47, 47), (98, 8), (102, 12), (110, 10), (114, 13), (116, 9)]

/-- An escape from behind its backslash: the bytes it stands for, and the rest. -/
def escape : List UInt8 → Option (List UInt8 × List UInt8)
  | [] => none
  | c :: cs =>
    if c = 117 then (hex4 cs).map fun (u, rest) => codeUnit u rest
    else (escapes.lookup c).map fun b => ([b], cs)

/-- A string from behind its quotation mark: its value, and what stands behind the
closing one. -/
def stringBody : ℕ → List UInt8 → Option (List UInt8 × List UInt8)
  | 0, _ => none
  | _ + 1, [] => none
  | n + 1, c :: cs =>
    if c = 34 then some ([], cs)
    else if c = 92 then do
      let (bytes, rest) ← escape cs
      let (s, rest) ← stringBody n rest
      return (bytes ++ s, rest)
    else if c < 32 then none
    else do
      let (s, rest) ← stringBody n cs
      return (c :: s, rest)

/-! ## Tokens

White space separates tokens and is none itself. Numbers are not converted. -/

/-- The structural characters. -/
inductive Punct where
  | beginArray
  | beginObject
  | endArray
  | endObject
  | nameSeparator
  | valueSeparator
  deriving DecidableEq, Repr

/-- The character. -/
def Punct.char : Punct → UInt8
  | .beginArray => 91
  | .beginObject => 123
  | .endArray => 93
  | .endObject => 125
  | .nameSeparator => 58
  | .valueSeparator => 44

/-- The words that are values. -/
inductive Literal where
  | true
  | false
  | null
  deriving DecidableEq, Repr

/-- The word. -/
def Literal.text : Literal → List UInt8
  | .true => ascii "true"
  | .false => ascii "false"
  | .null => ascii "null"

/-- A token; a number stays as it is written. -/
inductive Token where
  /-- one character -/
  | punct (p : Punct)
  /-- a word -/
  | literal (l : Literal)
  /-- with the escapes undone -/
  | string (bytes : List UInt8)
  /-- as it is written -/
  | number (text : List UInt8)
  deriving DecidableEq, Repr

/-- The characters between tokens. -/
def isBlank (c : UInt8) : Bool := c = 32 ∨ c = 9 ∨ c = 10 ∨ c = 13

def punctOf (c : UInt8) : Option Punct :=
  [Punct.beginArray, .beginObject, .endArray, .endObject, .nameSeparator, .valueSeparator].find?
    fun p => p.char = c

/-- The characters of numbers: digits, the signs, the point and the letter of an
exponent. -/
def isNumberChar (c : UInt8) : Bool :=
  IsDigit c ∨ c = 43 ∨ c = 45 ∨ c = 46 ∨ c = 69 ∨ c = 101

/-- Digits, at least one, and what stands behind them. -/
def digitsThen (cs : List UInt8) : Option (List UInt8) :=
  if (cs.takeWhile fun c => decide (IsDigit c)) = [] then none
  else some (cs.dropWhile fun c => decide (IsDigit c))

/-- The text without a character, if it starts with it. -/
def dropChar (c : UInt8) : List UInt8 → Option (List UInt8)
  | [] => none
  | c' :: cs => if c' = c then some cs else none

/-- The integer part: no zero in front of another digit. -/
def intThen (cs : List UInt8) : Option (List UInt8) :=
  match dropChar 48 cs with
  | some cs => some cs
  | none => digitsThen cs

/-- The fraction, if there is one. -/
def fracThen (cs : List UInt8) : Option (List UInt8) :=
  match dropChar 46 cs with
  | some cs => digitsThen cs
  | none => some cs

/-- The exponent, if there is one. -/
def expThen (cs : List UInt8) : Option (List UInt8) :=
  match (dropChar 101 cs).or (dropChar 69 cs) with
  | some cs => digitsThen (((dropChar 43 cs).or (dropChar 45 cs)).getD cs)
  | none => some cs

/-- `[ minus ] int [ frac ] [ exp ]` -/
def isNumber (cs : List UInt8) : Bool :=
  (((intThen ((dropChar 45 cs).getD cs)).bind fracThen).bind expThen) = some []

/-- The literal the text starts with. -/
def literalOf (text : List UInt8) : Option Literal :=
  [Literal.true, .false, .null].find? fun l => l.text.isPrefixOf text

/-- The token at the start of a text, none for a blank, and the rest. -/
def lexStep (c : UInt8) (cs : List UInt8) : Option (List Token × List UInt8) :=
  if isBlank c then some ([], cs)
  else if c = 34 then (stringBody cs.length cs).map fun (s, rest) => ([.string s], rest)
  else if isNumberChar c then
    let text := (c :: cs).takeWhile isNumberChar
    if isNumber text then some ([.number text], (c :: cs).dropWhile isNumberChar) else none
  else
    match punctOf c with
    | some p => some ([.punct p], cs)
    | none => (literalOf (c :: cs)).map fun l => ([.literal l], (c :: cs).drop l.text.length)

/-- The tokens of a text, in at most so many steps. -/
def lex : ℕ → List UInt8 → Option (List Token)
  | _, [] => some []
  | 0, _ :: _ => none
  | n + 1, c :: cs => do
    let (tokens, rest) ← lexStep c cs
    let more ← lex n rest
    return tokens ++ more

/-! ## What an escape takes

An escape is always longer than what it stands for. This is why a string with one in it
cannot come out as it was written. -/

theorem length_utf8Encode_le (n : ℕ) : (utf8Encode n).length ≤ 4 := by
  rw [utf8Encode, String.length_utf8EncodeChar]
  exact Char.utf8Size_le_four _

theorem hexValue_quote : hexValue 34 = none := rfl

/-- Four digits are four bytes, none of them a quotation mark. -/
theorem hex4_some {cs : List UInt8} {u : ℕ} {rest : List UInt8} (h : hex4 cs = some (u, rest)) :
    ∃ used, cs = used ++ rest ∧ used.length = 4 ∧ 34 ∉ used := by
  match cs with
  | a :: b :: c :: d :: cs =>
    simp only [hex4, Option.bind_eq_bind, Option.bind_eq_some_iff] at h
    obtain ⟨va, ha, vb, hb, vc, hc, vd, hd, h⟩ := h
    obtain ⟨-, rfl⟩ := Prod.mk.inj (Option.some.inj h)
    refine ⟨[a, b, c, d], rfl, rfl, fun hmem => ?_⟩
    have hdigit : ∀ x ∈ [a, b, c, d], hexValue x ≠ none := by
      simp [ha, hb, hc, hd]
    exact hdigit 34 hmem hexValue_quote
  | [] | [_] | [_, _] | [_, _, _] => cases h

theorem lowSurrogate_some {cs : List UInt8} {u : ℕ} {rest : List UInt8}
    (h : lowSurrogate cs = some (u, rest)) :
    ∃ used, cs = used ++ rest ∧ 34 ∉ used := by
  unfold lowSurrogate at h
  split at h
  · simp only [Option.bind_eq_bind, Option.bind_eq_some_iff] at h
    obtain ⟨⟨u', rest'⟩, hhex, h⟩ := h
    obtain ⟨used, hused, -, hquote⟩ := hex4_some hhex
    split at h
    · obtain ⟨-, rfl⟩ := Prod.mk.inj (Option.some.inj h)
      refine ⟨92 :: 117 :: used, by rw [hused]; rfl, ?_⟩
      simpa using hquote
    · cases h
  · cases h

theorem codeUnit_some {u : ℕ} {cs bytes rest : List UInt8} (h : codeUnit u cs = (bytes, rest)) :
    bytes.length ≤ 4 ∧ ∃ used, cs = used ++ rest ∧ 34 ∉ used := by
  unfold codeUnit at h
  split at h
  · split at h
    · rename_i l rest' hlow
      obtain ⟨rfl, rfl⟩ := Prod.mk.inj h
      exact ⟨length_utf8Encode_le _, lowSurrogate_some hlow⟩
    · obtain ⟨rfl, rfl⟩ := Prod.mk.inj h
      exact ⟨length_utf8Encode_le _, [], rfl, List.not_mem_nil⟩
  · split at h <;>
      (obtain ⟨rfl, rfl⟩ := Prod.mk.inj h
       exact ⟨length_utf8Encode_le _, [], rfl, List.not_mem_nil⟩)

/-- An escape stands for fewer bytes than it takes, and takes a quotation mark only
as the escape of one. -/
theorem escape_some {cs bytes rest : List UInt8} (h : escape cs = some (bytes, rest)) :
    bytes.length + rest.length ≤ cs.length ∧
      ((cs = 34 :: rest ∧ bytes = [34]) ∨ ∃ used, used ≠ [] ∧ cs = used ++ rest ∧ 34 ∉ used) := by
  cases cs with
  | nil => cases h
  | cons c cs =>
    rw [escape] at h
    by_cases hu : c = 117
    · subst hu
      rw [if_pos rfl, Option.map_eq_some_iff] at h
      obtain ⟨⟨u, rest'⟩, hhex, h⟩ := h
      obtain ⟨digits, rfl, hfour, hdigits⟩ := hex4_some hhex
      obtain ⟨hbytes, used, rfl, hused⟩ := codeUnit_some h
      refine ⟨?_, .inr ⟨117 :: (digits ++ used), List.cons_ne_nil _ _, ?_, ?_⟩⟩
      · simp only [List.length_cons, List.length_append]
        omega
      · simp only [List.cons_append, List.append_assoc]
      · simp [hdigits, hused]
    · rw [if_neg hu, Option.map_eq_some_iff] at h
      obtain ⟨b, hb, h⟩ := h
      obtain ⟨rfl, rfl⟩ := Prod.mk.inj h
      refine ⟨by simp [Nat.add_comm], ?_⟩
      by_cases hc : c = 34
      · subst hc
        exact .inl ⟨rfl, by rw [← Option.some.inj hb]⟩
      · exact .inr ⟨[c], List.cons_ne_nil _ _, rfl, by simpa using Ne.symm hc⟩

/-! ## Strings that need no escape

Three things must be kept out of a string: quotation marks, backslashes and control
characters. It also has to be UTF-8, but that is asked of the text as a whole. -/

/-- A string that stands for itself between quotation marks. -/
def Unescaped (s : List UInt8) : Prop := ∀ c ∈ s, 32 ≤ c ∧ c ≠ 34 ∧ c ≠ 92

instance : DecidablePred Unescaped := List.decidableBAll fun c => 32 ≤ c ∧ c ≠ 34 ∧ c ≠ 92

/-- The steps of `stringBody` that go on: an escape, or a character as it is. -/
theorem stringBody_cons {n : ℕ} {c : UInt8} (hc : c ≠ 34) {cs s rest : List UInt8}
    (h : stringBody (n + 1) (c :: cs) = some (s, rest)) :
    (c = 92 ∧ ∃ bytes more s', escape cs = some (bytes, more) ∧
        stringBody n more = some (s', rest) ∧ s = bytes ++ s') ∨
      (c ≠ 92 ∧ 32 ≤ c ∧ ∃ s', stringBody n cs = some (s', rest) ∧ s = c :: s') := by
  rw [stringBody, if_neg hc] at h
  by_cases hback : c = 92
  · rw [if_pos hback] at h
    obtain ⟨⟨bytes, more⟩, hescape, h⟩ := Option.bind_eq_some_iff.mp h
    obtain ⟨⟨s', rest'⟩, hbody, h⟩ := Option.bind_eq_some_iff.mp h
    obtain ⟨rfl, rfl⟩ := Prod.mk.inj (Option.some.inj h)
    exact .inl ⟨hback, bytes, more, s', hescape, hbody, rfl⟩
  · rw [if_neg hback] at h
    by_cases hcontrol : c < 32
    · rw [if_pos hcontrol] at h
      cases h
    · rw [if_neg hcontrol] at h
      obtain ⟨⟨s', rest'⟩, hbody, h⟩ := Option.bind_eq_some_iff.mp h
      obtain ⟨rfl, rfl⟩ := Prod.mk.inj (Option.some.inj h)
      exact .inr ⟨hback, UInt8.not_lt.mp hcontrol, s', hbody, rfl⟩

/-- A string has no more bytes than its text, and as many only if it is its text. -/
theorem length_stringBody {n : ℕ} {cs s rest : List UInt8}
    (h : stringBody n cs = some (s, rest)) :
    s.length + rest.length + 1 ≤ cs.length ∧
      (cs.length ≤ s.length + rest.length + 1 → Unescaped s) := by
  induction n generalizing cs s with
  | zero => cases h
  | succ n ih =>
    cases cs with
    | nil => cases h
    | cons c cs =>
      by_cases hc : c = 34
      · rw [stringBody, if_pos hc] at h
        obtain ⟨rfl, rfl⟩ := Prod.mk.inj (Option.some.inj h)
        exact ⟨by simp, fun _ _ hmem => nomatch hmem⟩
      · rcases stringBody_cons hc h with ⟨-, bytes, more, s', hescape, hbody, rfl⟩ |
          ⟨hback, hlow, s', hbody, rfl⟩
        · have htaken := (escape_some hescape).1
          have hrest := (ih hbody).1
          rw [List.length_append, List.length_cons]
          exact ⟨by omega, fun hall => absurd hall (by omega)⟩
        · obtain ⟨hrest, hplain⟩ := ih hbody
          simp only [List.length_cons]
          refine ⟨by omega, fun hall => List.forall_mem_cons.mpr ⟨⟨hlow, hc, hback⟩, ?_⟩⟩
          exact hplain (by omega)

/-- Bytes without a quotation mark are in front of the first one. -/
theorem append_quote_eq {front used rest more : List UInt8} (hused : 34 ∉ used)
    (h : front ++ 34 :: rest = used ++ more) :
    ∃ front', front = used ++ front' ∧ more = front' ++ 34 :: rest := by
  rcases List.append_eq_append_iff.mp h with ⟨a, rfl, hmore⟩ | ⟨a, rfl, hmore⟩
  · cases a with
    | nil => exact ⟨[], by rw [List.append_nil, List.append_nil], hmore.symm⟩
    | cons c a =>
      obtain ⟨rfl, -⟩ := List.cons_eq_cons.mp hmore
      exact absurd (List.mem_append_right _ (List.mem_cons_self ..)) hused
  · exact ⟨a, rfl, hmore⟩

/-- A string ends at the first quotation mark, or has this one in it. -/
theorem stringBody_quote {n : ℕ} {front rest s r : List UInt8} (hfront : 34 ∉ front)
    (h : stringBody n (front ++ 34 :: rest) = some (s, r)) :
    r = rest ∨ ∃ before after, s = before ++ 34 :: after ∧ before.length < front.length := by
  induction n generalizing front s with
  | zero => cases h
  | succ n ih =>
    cases front with
    | nil =>
      rw [List.nil_append, stringBody, if_pos rfl] at h
      exact .inl (Prod.mk.inj (Option.some.inj h)).2.symm
    | cons c front =>
      rw [List.mem_cons, not_or] at hfront
      obtain ⟨hc, hfront⟩ := hfront
      rcases stringBody_cons (Ne.symm hc) h with ⟨-, bytes, more, s', hescape, hbody, rfl⟩ |
          ⟨-, -, s', hbody, rfl⟩
      · obtain ⟨htaken, ⟨hquote, rfl⟩ | ⟨used, hne, hused, hnone⟩⟩ := escape_some hescape
        · exact .inr ⟨[], s', rfl, Nat.succ_pos _⟩
        · -- the escape stays in front of the quotation mark
          obtain ⟨front', rfl, rfl⟩ := append_quote_eq hnone hused
          rw [List.mem_append, not_or] at hfront
          rcases ih hfront.2 hbody with hr | ⟨before, after, rfl, hlt⟩
          · exact .inl hr
          · refine .inr ⟨bytes ++ before, after, (List.append_assoc ..).symm, ?_⟩
            simp only [List.append_eq, List.length_append, List.length_cons] at htaken ⊢
            omega
      · rcases ih hfront hbody with hr | ⟨before, after, rfl, hlt⟩
        · exact .inl hr
        · exact .inr ⟨c :: before, after, rfl, Nat.succ_lt_succ hlt⟩

/-- The closing quotation mark of an unescaped string is the first one. -/
theorem stringBody_unescaped {s : List UInt8} (hplain : Unescaped s) (rest : List UInt8) :
    ∀ n, s.length < n → stringBody n (s ++ 34 :: rest) = some (s, rest) := by
  induction s with
  | nil =>
    intro n hn
    obtain ⟨n, rfl⟩ := Nat.exists_eq_succ_of_ne_zero (Nat.ne_of_gt hn)
    rw [List.nil_append, stringBody, if_pos rfl]
  | cons c s ih =>
    intro n hn
    obtain ⟨n, rfl⟩ := Nat.exists_eq_succ_of_ne_zero (Nat.ne_of_gt (Nat.zero_lt_of_lt hn))
    obtain ⟨⟨hlow, hquote, hback⟩, hrest⟩ := List.forall_mem_cons.mp hplain
    rw [List.cons_append, stringBody, if_neg hquote, if_neg hback, if_neg (UInt8.not_lt.mpr hlow),
      ih hrest n (Nat.lt_of_succ_lt_succ hn)]
    rfl

/-- What is read back from between quotation marks is what was written there exactly
if nothing in it is special. -/
theorem stringBody_iff {n : ℕ} {s rest r : List UInt8} (hn : s.length < n) :
    stringBody n (s ++ 34 :: rest) = some (s, r) ↔ Unescaped s ∧ r = rest := by
  constructor
  · intro h
    obtain ⟨hlen, hplain⟩ := length_stringBody h
    rw [List.length_append, List.length_cons] at hlen hplain
    by_cases hquote : 34 ∈ s
    · obtain ⟨front, after, hs, hfront⟩ := List.eq_append_cons_of_mem hquote
      have hfirst := h
      rw [hs, List.append_assoc, List.cons_append] at hfirst
      rcases stringBody_quote hfront hfirst with hr | ⟨before, after', hs', hlt⟩
      · rw [hr, List.length_append, List.length_cons] at hlen
        omega
      · -- the first quotation mark of `s` would be the one behind `before`
        have hmem : (before ++ 34 :: after')[before.length]? = some 34 := by
          rw [List.getElem?_append_right le_rfl, Nat.sub_self, List.getElem?_cons_zero]
        rw [← hs', List.getElem?_append_left hlt] at hmem
        exact absurd (List.mem_of_getElem? hmem) hfront
    · rcases stringBody_quote hquote h with rfl | ⟨before, after, hs, -⟩
      · exact ⟨hplain (by omega), rfl⟩
      · exact absurd (by rw [hs]; exact List.mem_append_right _ (List.mem_cons_self ..)) hquote
  · rintro ⟨hplain, rfl⟩
    exact stringBody_unescaped hplain r n hn

/-! ## Numbers as they are printed

Printed numbers have no exponent and no zeros in front, so the grammar takes them. -/

/-- Where no digit comes first, none is read. -/
theorem not_isDigit_of_mem_head {cs : List UInt8} (h : ∀ c ∈ cs.head?, ¬ IsDigit c) :
    (cs.takeWhile fun c => decide (IsDigit c)) = [] ∧
      (cs.dropWhile fun c => decide (IsDigit c)) = cs := by
  cases cs with
  | nil => exact ⟨rfl, rfl⟩
  | cons c cs =>
    have hc : decide (IsDigit c) = false := decide_eq_false (h c rfl)
    exact ⟨List.takeWhile_cons_of_neg (by simp [hc]), List.dropWhile_cons_of_neg (by simp [hc])⟩

/-- All of a run of digits is read. -/
theorem digitsThen_append {digits rest : List UInt8} (hne : digits ≠ [])
    (hdigits : ∀ c ∈ digits, IsDigit c) (hrest : ∀ c ∈ rest.head?, ¬ IsDigit c) :
    digitsThen (digits ++ rest) = some rest := by
  obtain ⟨htake, hdrop⟩ := not_isDigit_of_mem_head hrest
  have hall : ∀ c ∈ digits, decide (IsDigit c) = true := fun c hc =>
    decide_eq_true (hdigits c hc)
  rw [digitsThen, List.takeWhile_append_of_pos hall, List.dropWhile_append_of_pos hall, htake,
    hdrop, List.append_nil, if_neg hne]

/-- What is printed is a number. -/
theorem isNumber_text (n : Numeral) : isNumber n.text = true := by
  have hunsigned : (dropChar 45 n.text).getD n.text = n.digits := by
    obtain ⟨d, ds, hdigits, hd, -⟩ := n.digits_eq_cons
    rw [Numeral.text]
    cases n.negative with
    | true => rfl
    | false =>
      have hminus : d ≠ 45 := by
        rintro rfl
        exact absurd hd (by decide)
      rw [if_neg (by decide), List.nil_append, hdigits, dropChar, if_neg hminus]
      rfl
  have hfrac : ∀ c ∈ n.fracText.head?, ¬ IsDigit c := by
    rw [Numeral.fracText]
    split
    · exact fun c hc => absurd hc (Option.not_mem_none c)
    · intro c hc
      rw [← Option.some.inj hc]
      decide
  have hint : intThen n.digits = some n.fracText := by
    obtain ⟨c, cs, hcons⟩ := List.exists_cons_of_ne_nil n.int_ne_nil
    by_cases hzero : c = 48
    · have hone := n.no_leading_zero (by rw [hcons, hzero]; rfl)
      rw [Numeral.digits, hone]
      rfl
    · have hnone : dropChar 48 n.digits = none := by
        rw [Numeral.digits, hcons, List.cons_append, dropChar, if_neg hzero]
      rw [intThen, hnone]
      exact digitsThen_append n.int_ne_nil n.int_digit hfrac
  have hfraction : fracThen n.fracText = some [] := by
    rw [Numeral.fracText]
    split
    · rfl
    · next hne =>
      have hend : ∀ c ∈ ([] : List UInt8).head?, ¬ IsDigit c := fun c hc =>
        absurd hc (Option.not_mem_none c)
      have hdigits := digitsThen_append hne n.frac_digit hend
      rw [List.append_nil] at hdigits
      exact hdigits
  rw [isNumber, hunsigned, hint, Option.bind_some, hfraction, Option.bind_some]
  rfl

/-- It has only characters of numbers, and at least one. -/
theorem text_isNumberChar (n : Numeral) :
    ∃ c cs, n.text = c :: cs ∧ ∀ x ∈ c :: cs, isNumberChar x = true := by
  obtain ⟨d, ds, hdigits, hd, hds⟩ := n.digits_eq_cons
  have hall : ∀ x ∈ d :: ds, isNumberChar x = true := by
    intro x hx
    rcases List.mem_cons.mp hx with rfl | hx
    · exact decide_eq_true (.inl hd)
    · rcases hds x hx with hdigit | rfl
      · exact decide_eq_true (.inl hdigit)
      · rfl
  rw [Numeral.text, hdigits]
  cases n.negative with
  | true => exact ⟨45, d :: ds, rfl, List.forall_mem_cons.mpr ⟨rfl, hall⟩⟩
  | false => exact ⟨d, ds, rfl, hall⟩

/-! ## Texts put together without escapes

A piece is a token with its text, or white space. Two numbers that touch would be read as
one, so this is excluded. -/

/-- What a text is put together from. -/
inductive Piece where
  /-- white space, which is no token -/
  | blank (c : UInt8) (h : isBlank c = true)
  /-- a structural character -/
  | punct (p : Punct)
  /-- a string, written between quotation marks as it is -/
  | string (s : List UInt8)
  /-- a printed number -/
  | number (n : Numeral)

namespace Piece

def text : Piece → List UInt8
  | .blank c _ => [c]
  | .punct p => [p.char]
  | .string s => 34 :: (s ++ [34])
  | .number n => n.text

/-- The token that is meant. -/
def token : Piece → Option Token
  | .blank _ _ => none
  | .punct p => some (.punct p)
  | .string s => some (.string s)
  | .number n => some (.number n.text)

def isNumber : Piece → Bool
  | .number _ => true
  | _ => false

end Piece

/-- The text of some pieces. -/
def textOf (pieces : List Piece) : List UInt8 := pieces.flatMap Piece.text

/-- The tokens of some pieces. -/
def tokensOf (pieces : List Piece) : List Token := pieces.filterMap Piece.token

/-- No number stands right behind another. -/
def Separate (pieces : List Piece) : Prop :=
  pieces.IsChain fun p q => p.isNumber → q.isNumber = false

/-- A structural character is its token. -/
theorem lexStep_punct (p : Punct) (cs : List UInt8) :
    lexStep p.char cs = some ([.punct p], cs) := by
  cases p <;> rfl

/-- What is no number does not go on with one. -/
theorem head_text_not_number {p : Piece} (h : p.isNumber = false) :
    ∃ c cs, p.text = c :: cs ∧ isNumberChar c = false := by
  cases p with
  | blank c hc =>
    refine ⟨c, [], rfl, ?_⟩
    rcases of_decide_eq_true hc with rfl | rfl | rfl | rfl <;> rfl
  | punct p => cases p <;> exact ⟨_, [], rfl, rfl⟩
  | string s => exact ⟨34, s ++ [34], rfl, rfl⟩
  | number n => cases h

/-- Every piece has a character. -/
theorem Piece.text_ne_nil (p : Piece) : ∃ c cs, p.text = c :: cs := by
  cases p with
  | blank c _ => exact ⟨c, [], rfl⟩
  | punct p => exact ⟨p.char, [], rfl⟩
  | string s => exact ⟨34, s ++ [34], rfl⟩
  | number n =>
    obtain ⟨c, cs, htext, -⟩ := text_isNumberChar n
    exact ⟨c, cs, htext⟩

/-- A number is read up to what does not belong to it. -/
theorem lexStep_number (n : Numeral) {rest : List UInt8}
    (hrest : ∀ c ∈ rest.head?, isNumberChar c = false) :
    ∃ c cs, n.text ++ rest = c :: cs ∧ lexStep c cs = some ([.number n.text], rest) := by
  obtain ⟨c, cs, htext, hall⟩ := text_isNumberChar n
  have hstop : rest.takeWhile isNumberChar = [] ∧ rest.dropWhile isNumberChar = rest := by
    cases rest with
    | nil => exact ⟨rfl, rfl⟩
    | cons c' rest =>
      have hc := hrest c' rfl
      exact ⟨List.takeWhile_cons_of_neg (by simp [hc]), List.dropWhile_cons_of_neg (by simp [hc])⟩
  have hc := hall c (List.mem_cons_self ..)
  have hblank : isBlank c = false := by
    cases hb : isBlank c with
    | false => rfl
    | true => rcases of_decide_eq_true hb with rfl | rfl | rfl | rfl <;> exact absurd hc (by decide)
  have hquote : c ≠ 34 := by
    rintro rfl
    exact absurd hc (by decide)
  refine ⟨c, cs ++ rest, by rw [htext, List.cons_append], ?_⟩
  rw [lexStep, hblank, if_neg (by decide), if_neg hquote, if_pos hc, ← List.cons_append,
    List.takeWhile_append_of_pos hall, List.dropWhile_append_of_pos hall, hstop.1, hstop.2,
    List.append_nil, ← htext]
  exact if_pos (isNumber_text n)

/-- A step takes its tokens from the front. -/
theorem lex_cons {n : ℕ} {c : UInt8} {cs rest : List UInt8} {tokens : List Token}
    (h : lexStep c cs = some (tokens, rest)) :
    lex (n + 1) (c :: cs) = (lex n rest).map (tokens ++ ·) := by
  rw [lex, h]
  exact Option.map_eq_bind.symm

/-- A step that takes one token. -/
theorem lex_token_iff {n : ℕ} {c : UInt8} {cs rest : List UInt8} {token : Token}
    {tokens : List Token} (h : lexStep c cs = some ([token], rest)) :
    lex (n + 1) (c :: cs) = some (token :: tokens) ↔ lex n rest = some tokens := by
  rw [lex_cons h]
  cases lex n rest with
  | none => exact ⟨(fun h => nomatch h), (fun h => nomatch h)⟩
  | some more => simp

/-- A string that was written is read back exactly if it needs no escape. -/
theorem lex_string_iff {n : ℕ} {s rest : List UInt8} {tokens : List Token} :
    lex (n + 1) (34 :: (s ++ 34 :: rest)) = some (.string s :: tokens) ↔
      Unescaped s ∧ lex n rest = some tokens := by
  have hfuel : s.length < (s ++ 34 :: rest).length := by
    rw [List.length_append, List.length_cons]
    omega
  have hstep : ∀ s' rest', stringBody (s ++ 34 :: rest).length (s ++ 34 :: rest) = some (s', rest') →
      lexStep 34 (s ++ 34 :: rest) = some ([.string s'], rest') := by
    intro s' rest' hbody
    rw [lexStep, if_neg (by decide), if_pos rfl, hbody]
    rfl
  constructor
  · intro h
    cases hbody : stringBody (s ++ 34 :: rest).length (s ++ 34 :: rest) with
    | none =>
      have hnone : lexStep 34 (s ++ 34 :: rest) = none := by
        rw [lexStep, if_neg (by decide), if_pos rfl, hbody]
        rfl
      rw [lex, hnone] at h
      cases h
    | some body =>
      obtain ⟨s', rest'⟩ := body
      rw [lex_cons (hstep s' rest' hbody), Option.map_eq_some_iff] at h
      obtain ⟨more, hmore, heq⟩ := h
      obtain ⟨hs, rfl⟩ := List.cons_eq_cons.mp heq
      obtain rfl := Token.string.inj hs
      obtain ⟨hplain, rfl⟩ := (stringBody_iff hfuel).mp hbody
      exact ⟨hplain, hmore⟩
  · rintro ⟨hplain, hmore⟩
    exact (lex_token_iff (hstep s rest ((stringBody_iff hfuel).mpr ⟨hplain, rfl⟩))).mpr hmore

/-- A text has the tokens that were meant exactly if no string in it needs an
escape. -/
theorem lex_text_iff {pieces : List Piece} (hseparate : Separate pieces) :
    ∀ n, (textOf pieces).length ≤ n →
      (lex n (textOf pieces) = some (tokensOf pieces) ↔
        ∀ s, .string s ∈ pieces → Unescaped s) := by
  induction pieces with
  | nil =>
    intro n _
    refine ⟨fun _ s hmem => absurd hmem List.not_mem_nil, fun _ => ?_⟩
    cases n <;> rfl
  | cons p pieces ih =>
    intro n hn
    obtain ⟨hnext, hseparate⟩ := List.isChain_cons.mp hseparate
    have ih := ih hseparate
    have htext : textOf (p :: pieces) = p.text ++ textOf pieces := List.flatMap_cons
    rw [htext, List.length_append] at hn
    rw [htext]
    -- a piece that is no string asks for nothing
    have hsame : (∀ s, p ≠ .string s) →
        ((∀ s, .string s ∈ p :: pieces → Unescaped s) ↔
          ∀ s, .string s ∈ pieces → Unescaped s) := fun hp =>
      forall_congr' fun s => by rw [List.mem_cons, or_iff_right (Ne.symm (hp s))]
    obtain ⟨n, rfl⟩ : ∃ m, n = m + 1 := by
      obtain ⟨c, cs, hcons⟩ := p.text_ne_nil
      rw [hcons, List.length_cons] at hn
      exact ⟨n - 1, by omega⟩
    cases p with
    | blank c hc =>
      have hstep : lexStep c (textOf pieces) = some ([], textOf pieces) := if_pos hc
      have hfuel : (textOf pieces).length ≤ n := by
        rw [Piece.text, List.length_singleton] at hn
        omega
      rw [hsame fun s => Piece.noConfusion, ← ih n hfuel, Piece.text, List.singleton_append,
        lex_cons hstep]
      exact Eq.congr_left Option.map_id'
    | punct p =>
      have hfuel : (textOf pieces).length ≤ n := by
        rw [Piece.text, List.length_singleton] at hn
        omega
      rw [hsame fun s => Piece.noConfusion, ← ih n hfuel, Piece.text, List.singleton_append]
      exact lex_token_iff (lexStep_punct p _)
    | string s =>
      have hfuel : (textOf pieces).length ≤ n := by
        rw [Piece.text, List.length_cons, List.length_append] at hn
        omega
      have hmem : (∀ s', .string s' ∈ .string s :: pieces → Unescaped s') ↔
          Unescaped s ∧ ∀ s', .string s' ∈ pieces → Unescaped s' := by
        simp only [List.mem_cons, Piece.string.injEq, or_imp, forall_and, forall_eq]
      rw [hmem, ← ih n hfuel, Piece.text, List.cons_append, List.append_assoc]
      exact lex_string_iff
    | number m =>
      have hrest : ∀ c ∈ (textOf pieces).head?, isNumberChar c = false := by
        cases pieces with
        | nil => exact fun c hc => nomatch hc
        | cons q pieces =>
          obtain ⟨c, cs, hq, hc⟩ := head_text_not_number (hnext q rfl rfl)
          intro c' hc'
          rw [textOf, List.flatMap_cons, hq] at hc'
          rwa [← Option.some.inj hc']
      obtain ⟨c, cs, hcons, hstep⟩ := lexStep_number m hrest
      have hfuel : (textOf pieces).length ≤ n := by
        obtain ⟨d, ds, hd⟩ := (Piece.number m).text_ne_nil
        rw [hd, List.length_cons] at hn
        omega
      rw [hsame fun s => Piece.noConfusion, ← ih n hfuel, Piece.text, hcons]
      exact lex_token_iff hstep

/-! ## Texts put together are UTF-8

All characters but those of the strings have one byte, so every string starts and ends
between two characters. -/

/-- What holds of the machine after any bytes: it asks for a byte of a longer
character, or stands between two. -/
structure Utf8.Reached (u : Utf8) : Prop where
  /-- no byte of one-byte characters is taken in the middle of a character -/
  low : 0x80 ≤ u.low
  /-- there is one state between two characters -/
  between : u.need = 0 → u = start

/-- Behind a first byte. -/
theorem Utf8.reached_tail (n : ℕ) : (tail n).Reached :=
  ⟨UInt8.le_refl _, fun h => congrArg tail h⟩

theorem Utf8.Reached.next {u u' : Utf8} {c : UInt8} (h : u.next c = some u') : u'.Reached := by
  unfold Utf8.next at h
  split at h
  · unfold first at h
    split_ifs at h <;> obtain rfl := Option.some.inj h <;>
      first
      | exact reached_tail _
      | exact ⟨by decide, fun h => absurd h (by decide)⟩
  · split at h
    · rw [← Option.some.inj h]
      exact reached_tail _
    · cases h

/-- After any bytes. -/
theorem Utf8.reached_run {bytes : List UInt8} {u u' : Utf8} (hu : u.Reached)
    (h : bytes.foldlM Utf8.next u = some u') : u'.Reached := by
  induction bytes generalizing u with
  | nil =>
    rw [← Option.some.inj h]
    exact hu
  | cons c bytes ih =>
    rw [List.foldlM_cons] at h
    obtain ⟨u₁, hnext, h⟩ := Option.bind_eq_some_iff.mp h
    exact ih (Utf8.Reached.next hnext) h

/-- A one-byte character only stands between two others. -/
theorem isUtf8_append_cons {c : UInt8} (hc : c < 0x80) (bytes rest : List UInt8) :
    isUtf8 (bytes ++ c :: rest) = true ↔ isUtf8 bytes = true ∧ isUtf8 rest = true := by
  simp only [isUtf8, decide_eq_true_eq]
  rw [List.foldlM_append]
  cases hrun : bytes.foldlM Utf8.next Utf8.start with
  | none => exact ⟨(fun h => nomatch h), (fun h => nomatch h.1)⟩
  | some u =>
    have hu := Utf8.reached_run (Utf8.reached_tail 0) hrun
    rw [Option.bind_eq_bind, Option.bind_some, List.foldlM_cons]
    by_cases hneed : u.need = 0
    · rw [hu.between hneed]
      have hnext : Utf8.start.next c = some Utf8.start := if_pos hc
      rw [hnext, Option.bind_eq_bind, Option.bind_some]
      exact (and_iff_right rfl).symm
    · have hnext : u.next c = none := by
        obtain ⟨n, hn⟩ := Nat.exists_eq_succ_of_ne_zero hneed
        rw [Utf8.next, hn]
        exact if_neg fun h => UInt8.not_lt.mpr (UInt8.le_trans hu.low h.1) hc
      rw [hnext]
      refine ⟨(fun h => nomatch h), fun h => absurd ?_ hneed⟩
      rw [Option.some.inj h.1]
      rfl

/-- One-byte characters in front change nothing. -/
theorem isUtf8_ascii_append {front : List UInt8} (h : ∀ c ∈ front, c < 0x80)
    (rest : List UInt8) : isUtf8 (front ++ rest) = true ↔ isUtf8 rest = true := by
  induction front with
  | nil => exact Iff.rfl
  | cons c front ih =>
    obtain ⟨hc, hfront⟩ := List.forall_mem_cons.mp h
    rw [← ih hfront]
    exact (isUtf8_append_cons hc [] _).trans (and_iff_right rfl)

/-- A text put together is UTF-8 if the strings in it are. -/
theorem isUtf8_text_iff (pieces : List Piece) :
    isUtf8 (textOf pieces) = true ↔ ∀ s, .string s ∈ pieces → isUtf8 s = true := by
  induction pieces with
  | nil => exact ⟨fun _ s hmem => absurd hmem List.not_mem_nil, fun _ => rfl⟩
  | cons p pieces ih =>
    rw [textOf, List.flatMap_cons, ← textOf]
    have hsame : (∀ s, p ≠ .string s) → (∀ c ∈ p.text, c < 0x80) →
        (isUtf8 (p.text ++ textOf pieces) = true ↔
          ∀ s, .string s ∈ p :: pieces → isUtf8 s = true) := by
      intro hp hascii
      rw [isUtf8_ascii_append hascii, ih]
      exact forall_congr' fun s => by rw [List.mem_cons, or_iff_right (Ne.symm (hp s))]
    cases p with
    | blank c hc =>
      refine hsame (fun s => Piece.noConfusion) fun c' hc' => ?_
      rw [List.mem_singleton.mp hc']
      rcases of_decide_eq_true hc with rfl | rfl | rfl | rfl <;> decide
    | punct p =>
      refine hsame (fun s => Piece.noConfusion) fun c' hc' => ?_
      rw [List.mem_singleton.mp hc']
      cases p <;> decide
    | string s =>
      have hquote := isUtf8_append_cons (show (34 : UInt8) < 0x80 by decide) [] (s ++ 34 :: textOf pieces)
      have hmem : (∀ s', .string s' ∈ .string s :: pieces → isUtf8 s' = true) ↔
          isUtf8 s = true ∧ ∀ s', .string s' ∈ pieces → isUtf8 s' = true := by
        simp only [List.mem_cons, Piece.string.injEq, or_imp, forall_and, forall_eq]
      rw [hmem, ← ih, Piece.text, List.cons_append, List.append_assoc, List.singleton_append]
      refine hquote.trans ?_
      rw [isUtf8_append_cons (by decide)]
      exact and_iff_right rfl
    | number n =>
      refine hsame (fun s => Piece.noConfusion) fun c hc => ?_
      obtain ⟨d, ds, htext, hall⟩ := text_isNumberChar n
      rw [Piece.text, htext] at hc
      rcases of_decide_eq_true (hall c hc) with hdigit | rfl | rfl | rfl | rfl | rfl
      · exact UInt8.lt_of_le_of_lt hdigit.2 (by decide)
      · decide
      · decide
      · decide
      · decide
      · decide

end Json
