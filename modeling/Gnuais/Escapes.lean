import Gnuais.ParseArgs
import Mathlib.Data.List.Chain

/-!
# Spellings of a character

The spellings that `parse_string` has for a character, and which of them it reads as
that character (`parseString_spelling_iff`). `strtoul` gets the `x` of `\x` and takes
it for the end of the number, so `\x41` is a terminator and three characters; and it
takes all the octal digits there are, so `\101` with a `1` behind it is one number of
four digits.
-/

namespace Gnuais

open Buffer CString

/-- The spellings of a character. -/
inductive Spelling where
  /-- the character itself -/
  | literal (c : UInt8)
  /-- a backslash and a letter, such as `\n` -/
  | named (c : UInt8)
  /-- a backslash and three octal digits -/
  | octal (a b c : UInt8)
  /-- a backslash, an `x` and two hexadecimal digits -/
  | hex (a b : UInt8)
  deriving DecidableEq, Repr

namespace Spelling

def text : Spelling → List UInt8
  | literal c => [c]
  | named c => [92, c]
  | octal a b c => [92, a, b, c]
  | hex a b => [92, 120, a, b]

/-- The character that is meant. -/
def byte : Spelling → UInt8
  | literal c => c
  | named c => (namedEscapes.lookup c).getD 0
  | octal a b c => UInt8.ofNat (numberOf 8 [a, b, c])
  | hex a b => UInt8.ofNat (numberOf 16 [a, b])

/-- The number of an escape is that of a character other than the terminator. -/
def Valid : Spelling → Prop
  | literal c => c ≠ 34 ∧ c ≠ 92 ∧ c ≠ 0
  | named c => (namedEscapes.lookup c).isSome
  | octal a b c => [a, b, c].all (isDigitOf 8) = true ∧ 1 ≤ numberOf 8 [a, b, c] ∧
      numberOf 8 [a, b, c] < 256
  | hex a b => [a, b].all (isDigitOf 16) = true ∧ 1 ≤ numberOf 16 [a, b]

instance : DecidablePred Valid
  | literal c => inferInstanceAs (Decidable (c ≠ 34 ∧ c ≠ 92 ∧ c ≠ 0))
  | named c => inferInstanceAs (Decidable ((namedEscapes.lookup c).isSome = true))
  | octal a b c => inferInstanceAs (Decidable ([a, b, c].all (isDigitOf 8) = true ∧
      1 ≤ numberOf 8 [a, b, c] ∧ numberOf 8 [a, b, c] < 256))
  | hex a b => inferInstanceAs (Decidable ([a, b].all (isDigitOf 16) = true ∧
      1 ≤ numberOf 16 [a, b]))

def isOctal : Spelling → Bool
  | octal .. => true
  | _ => false

def isHex : Spelling → Bool
  | hex .. => true
  | _ => false

/-- The text starts with a digit of the base. -/
def startsWithDigit (base : ℕ) (u : Spelling) : Bool := u.text.head?.any (isDigitOf base)

end Spelling

open Spelling

/-- The text of some spellings. -/
def spelled (units : List Spelling) : List UInt8 := units.flatMap text

/-- A string that is spelled as C has it: a number of two hexadecimal digits ends
where a character follows that is none. -/
def Spells (units : List Spelling) : Prop :=
  (∀ u ∈ units, u.Valid) ∧
    units.IsChain fun u v => u.isHex = true → v.startsWithDigit 16 = false

/-- What `parse_string` reads as it is meant: no hexadecimal numbers, and no octal numbers
in front of an octal digit. The rule for octal numbers is that C has them end behind three
digits, and `strtoul` does not. -/
def Decodes (units : List Spelling) : Prop :=
  (∀ u ∈ units, u.isHex = false) ∧
    units.IsChain fun u v => u.isOctal = true → v.startsWithDigit 8 = false

instance : DecidablePred Spells := fun units =>
  inferInstanceAs (Decidable ((∀ u ∈ units, u.Valid) ∧
    units.IsChain fun u v => u.isHex = true → v.startsWithDigit 16 = false))

instance : DecidablePred Decodes := fun units =>
  inferInstanceAs (Decidable ((∀ u ∈ units, u.isHex = false) ∧
    units.IsChain fun u v => u.isOctal = true → v.startsWithDigit 8 = false))

/-- There is nothing to read. -/
theorem decodes_nil : Decodes [] := ⟨fun _ h => absurd h List.not_mem_nil, .nil⟩

/-- The first spelling, and then the others. -/
theorem decodes_cons {u : Spelling} {us : List Spelling} :
    Decodes (u :: us) ↔ (u.isHex = false ∧
      ∀ v ∈ us.head?, u.isOctal = true → v.startsWithDigit 8 = false) ∧ Decodes us := by
  rw [Decodes, Decodes, List.forall_mem_cons, List.isChain_cons]
  tauto

/-- The text of the first, and then that of the others. -/
theorem spelled_cons (u : Spelling) (us : List Spelling) :
    spelled (u :: us) = u.text ++ spelled us := List.flatMap_cons

/-! ## The spellings have no terminators

A terminator would end the string in the middle of a spelling. -/

/-- One spelling. -/
theorem Spelling.Valid.zero_not_mem {u : Spelling} (h : u.Valid) : 0 ∉ u.text := by
  have hdigit : ∀ base, isDigitOf base 0 = false := fun base => rfl
  intro hmem
  cases u with
  | literal c => exact h.2.2 (List.mem_singleton.mp hmem).symm
  | named c =>
    rcases List.mem_cons.mp hmem with h0 | hmem
    · exact absurd h0 (by decide)
    · rw [Valid, ← List.mem_singleton.mp hmem] at h
      exact absurd h (by decide)
  | octal a b c =>
    rcases List.mem_cons.mp hmem with h0 | hmem
    · exact absurd h0 (by decide)
    · exact Bool.false_ne_true ((hdigit 8).symm.trans (List.all_eq_true.mp h.1 0 hmem))
  | hex a b =>
    rcases List.mem_cons.mp hmem with h0 | hmem
    · exact absurd h0 (by decide)
    rcases List.mem_cons.mp hmem with h0 | hmem
    · exact absurd h0 (by decide)
    · exact Bool.false_ne_true ((hdigit 16).symm.trans (List.all_eq_true.mp h.1 0 hmem))

/-- All of them. -/
theorem zero_not_mem_spelled {units : List Spelling} (h : ∀ u ∈ units, u.Valid) :
    0 ∉ spelled units := fun hmem => by
  obtain ⟨u, hu, hmem⟩ := List.mem_flatMap.mp hmem
  exact (h u hu).zero_not_mem hmem

/-- No character that is meant and can be read is the terminator. -/
theorem Spelling.Valid.byte_ne {u : Spelling} (h : u.Valid) (hhex : u.isHex = false) :
    u.byte ≠ 0 := by
  cases u with
  | literal c => exact h.2.2
  | named c =>
    obtain ⟨b, hb⟩ := Option.isSome_iff_exists.mp h
    have hall : namedEscapes.all (·.2 ≠ 0) = true := by decide
    obtain ⟨before, behind, hmem, -⟩ := List.lookup_eq_some_iff.mp hb
    rw [byte, hb]
    exact of_decide_eq_true (List.all_eq_true.mp hall (c, b)
      (hmem ▸ List.mem_append_right _ List.mem_cons_self))
  | octal a b c =>
    intro hzero
    have hnum : numberOf 8 [a, b, c] % 256 = 0 := congrArg UInt8.toNat hzero
    obtain ⟨-, hpos, hlt⟩ := h
    omega
  | hex a b => cases hhex

/-! ## One spelling

What a turn of `parse_string` reads at the start of each kind of spelling. The character
it stores is the one that is meant, except for a hexadecimal number and for an octal one
with more digits behind it. -/

/-- A character that is no backslash. -/
theorem readChar_literal {c : UInt8} (hc : c ≠ 92) (s : List UInt8) :
    readChar (c :: s) = some (c, 1) := by
  rw [readChar, if_neg hc]

/-- A letter behind a backslash. -/
theorem readChar_named {c b : UInt8} (hb : namedEscapes.lookup c = some b) (s : List UInt8) :
    readChar (92 :: c :: s) = some (b, 2) := by
  rw [readChar, if_pos rfl, parseEscape, hb]
  rfl

/-- `strtoul` does not get over the `x`. -/
theorem readChar_hex (s : List UInt8) : readChar (92 :: 120 :: s) = some (0, 1) := by
  have hnone : namedEscapes.lookup 120 = none := by decide
  have hscan : scan 16 (120 :: s) = ⟨false, 0, 0⟩ :=
    scan_none rfl (by decide) (by decide) (by decide) (by decide) (by decide)
  rw [readChar, if_pos rfl, parseEscape, hnone]
  dsimp only
  rw [if_pos rfl, strtoul, hscan]
  rfl

/-- An octal digit. -/
theorem octal_digit {a : UInt8} (ha : isDigitOf 8 a = true) : (48 ≤ a ∧ a ≤ 55) ∧ IsDigit a := by
  obtain ⟨hlow, hhigh⟩ := (isDigitOf_iff (by decide)).mp ha
  have hle : a.toNat ≤ 55 := by omega
  have hrange : 48 ≤ a ∧ a ≤ 55 :=
    ⟨UInt8.le_iff_toNat_le.mpr hlow, UInt8.le_iff_toNat_le.mpr hle⟩
  exact ⟨hrange, hrange.1, UInt8.le_trans hrange.2 (by decide)⟩

section Octal

variable {a b c : UInt8} (hdigits : ∀ d ∈ [a, b, c], isDigitOf 8 d = true) (s : List UInt8)

include hdigits

/-- `strtoul` reads the three digits and the octal digits behind them. -/
theorem scan_octal :
    scan 8 (a :: b :: c :: s) = ⟨false, numberOf 8 (a :: b :: c :: s.takeWhile (isDigitOf 8)),
      (s.takeWhile (isDigitOf 8)).length + 3⟩ := by
  have ha := hdigits a (by simp)
  rw [scan_digits rfl (octal_digit ha).2 ha (by decide), List.takeWhile_cons_of_pos ha,
    List.takeWhile_cons_of_pos (hdigits b (by simp)),
    List.takeWhile_cons_of_pos (hdigits c (by simp))]
  rfl

/-- All octal digits are taken for one number. -/
theorem readChar_octal :
    readChar (92 :: a :: b :: c :: s) =
      some (UInt8.ofNat (strtoul 8 (a :: b :: c :: s)).1,
        (s.takeWhile (isDigitOf 8)).length + 4) := by
  obtain ⟨hrange, -⟩ := octal_digit (hdigits a (by simp))
  have hnone : namedEscapes.lookup a = none := by
    have hall : namedEscapes.all (fun p => ¬ (48 ≤ p.1 ∧ p.1 ≤ 55)) = true := by decide
    exact List.lookup_eq_none_iff.mpr fun p hp =>
      bne_iff_ne.mpr fun heq => of_decide_eq_true (List.all_eq_true.mp hall p hp) (heq ▸ hrange)
  have hx : a ≠ 120 := by
    rintro rfl
    exact absurd hrange (by decide)
  have hused : (strtoul 8 (a :: b :: c :: s)).2 = (s.takeWhile (isDigitOf 8)).length + 3 := by
    rw [strtoul, scan_octal hdigits]
  rw [readChar, if_pos rfl, parseEscape, hnone]
  dsimp only
  rw [if_neg hx, if_pos hrange, Option.map_some, hused]

/-- Without more octal digits the number is that of the three digits. -/
theorem strtoul_octal (hlt : numberOf 8 [a, b, c] < 256)
    (hs : s.takeWhile (isDigitOf 8) = []) :
    (strtoul 8 (a :: b :: c :: s)).1 = numberOf 8 [a, b, c] := by
  rw [strtoul, scan_octal hdigits, hs]
  dsimp only
  rw [if_neg (by omega), if_neg Bool.false_ne_true]

end Octal

/-! ## A string of spellings

A string with a spelling that is misread becomes shorter than what was meant, as some
characters are swallowed. So it cannot be right by chance, and the condition is exact. -/

/-- A spelling that starts with a digit is a literal. -/
theorem startsWithDigit_literal {u : Spelling} (h : u.startsWithDigit 8 = true) :
    ∃ c, u = literal c ∧ isDigitOf 8 c = true := by
  cases u with
  | literal c => exact ⟨c, rfl, h⟩
  | named | octal | hex => exact absurd (show isDigitOf 8 92 = true from h) (by decide)

theorem text_eq_cons (u : Spelling) : ∃ c s, u.text = c :: s := by
  cases u <;> exact ⟨_, _, rfl⟩

/-- The octal digits in front of a text are the spellings that are such digits. -/
theorem takeWhile_spelled (us : List Spelling) (tail : List UInt8) :
    ∃ digits, (spelled us ++ 34 :: tail).takeWhile (isDigitOf 8) = digits ∧
      digits.length = (us.takeWhile (startsWithDigit 8)).length ∧
      (spelled us ++ 34 :: tail).drop digits.length =
        spelled (us.dropWhile (startsWithDigit 8)) ++ 34 :: tail := by
  induction us with
  | nil => exact ⟨[], rfl, rfl, rfl⟩
  | cons u us ih =>
    rw [spelled_cons]
    by_cases hu : u.startsWithDigit 8 = true
    · obtain ⟨c, rfl, hc⟩ := startsWithDigit_literal hu
      obtain ⟨digits, htake, hlen, hdrop⟩ := ih
      refine ⟨c :: digits, ?_, ?_, ?_⟩
      · rw [text, List.append_assoc, List.singleton_append, List.takeWhile_cons_of_pos hc, htake]
      · rw [List.takeWhile_cons_of_pos hu, List.length_cons, List.length_cons, hlen]
      · rw [List.dropWhile_cons_of_pos hu, text, List.append_assoc, List.singleton_append,
          List.length_cons, List.drop_succ_cons, hdrop]
    · refine ⟨[], ?_, ?_, ?_⟩
      · obtain ⟨c, s, htext⟩ := text_eq_cons u
        rw [startsWithDigit, htext] at hu
        rw [htext]
        exact List.takeWhile_cons_of_neg hu
      · rw [List.takeWhile_cons_of_neg hu]
        rfl
      · rw [List.dropWhile_cons_of_neg hu, List.length_nil, List.drop_zero, spelled_cons]

/-- `parse_string` reads all of some spellings, and gets fewer characters than were meant
unless each of them is read as it is meant. A lemma about the length is enough, as a
string that is too short cannot be the one that was meant. -/
def Reads (units : List Spelling) (tail : List UInt8) : Prop :=
  ∃ chars, unescape (spelled units ++ 34 :: tail) = some (chars, (spelled units).length + 1) ∧
    (Decodes units ∧ chars = units.map byte ∨
      ¬ Decodes units ∧ (chars.takeWhile (· ≠ 0)).length < units.length)

/-- Never more characters than were meant. -/
theorem Reads.length_le {units : List Spelling} {tail : List UInt8} (h : Reads units tail) :
    ∃ chars, unescape (spelled units ++ 34 :: tail) = some (chars, (spelled units).length + 1) ∧
      (chars.takeWhile (· ≠ 0)).length ≤ units.length := by
  obtain ⟨chars, hread, ⟨-, rfl⟩ | ⟨-, hlt⟩⟩ := h
  · exact ⟨_, hread, (List.takeWhile_prefix _).length_le.trans (List.length_map byte).le⟩
  · exact ⟨chars, hread, Nat.le_of_lt hlt⟩

/-- No spelling starts with a quote. -/
theorem not_atEnd_text {u : Spelling} (h : u.Valid) (s : List UInt8) : ¬ AtEnd (u.text ++ s) := by
  rintro (hnil | hquote)
  · obtain ⟨c, s', htext⟩ := text_eq_cons u
    rw [htext] at hnil
    cases hnil
  · cases u with
    | literal c => exact h.1 (Option.some.inj hquote)
    | named | octal | hex => exact absurd (Option.some.inj hquote) (by decide)

section Cons

variable {u : Spelling} {us : List Spelling} {tail : List UInt8} (hvalid : u.Valid)

include hvalid

/-- A spelling that is read as it is meant. -/
theorem reads_cons (ih : Reads us tail) (hhex : u.isHex = false)
    (hnext : ∀ v ∈ us.head?, u.isOctal = true → v.startsWithDigit 8 = false)
    (hread : readChar (u.text ++ (spelled us ++ 34 :: tail)) = some (u.byte, u.text.length)) :
    Reads (u :: us) tail := by
  obtain ⟨chars, hrest, hchars⟩ := ih
  have hend := not_atEnd_text hvalid (spelled us ++ 34 :: tail)
  refine ⟨u.byte :: chars, ?_, ?_⟩
  · rw [spelled_cons, List.append_assoc, unescape_cons hend hread, List.drop_left, hrest,
      Option.map_some, List.length_append, Nat.add_assoc]
  · rw [decodes_cons]
    refine hchars.imp (fun ⟨hdecodes, heq⟩ => ?_) fun ⟨hdecodes, hlt⟩ => ?_
    · exact ⟨⟨⟨hhex, hnext⟩, hdecodes⟩, by rw [heq, List.map_cons]⟩
    · have hcons : (u.byte :: chars).takeWhile (· ≠ 0) = u.byte :: chars.takeWhile (· ≠ 0) :=
        List.takeWhile_cons_of_pos (decide_eq_true (hvalid.byte_ne hhex))
      rw [hcons]
      exact ⟨fun h => hdecodes h.2, Nat.succ_lt_succ hlt⟩

/-- A hexadecimal number becomes a terminator and what stands behind the backslash. -/
theorem reads_hex (ih : Reads us tail) (hhex : u.isHex = true) : Reads (u :: us) tail := by
  cases u with
  | literal | named | octal => cases hhex
  | hex a b =>
    obtain ⟨chars, hrest, -⟩ := ih
    have hliteral : ∀ {c : UInt8} {s : List UInt8} {chars : List UInt8} {used : ℕ}, c ≠ 34 →
        c ≠ 92 → unescape s = some (chars, used) →
          unescape (c :: s) = some (c :: chars, used + 1) := by
      intro c s chars used hquote hslash hs
      rw [unescape_cons (by simp [AtEnd, hquote]) (readChar_literal hslash s), List.drop_succ_cons,
        List.drop_zero, hs, Option.map_some, Nat.add_comm]
    have hdigit : ∀ d ∈ [a, b], d ≠ 34 ∧ d ≠ 92 := by
      intro d hd
      constructor <;> rintro rfl <;> exact absurd (List.all_eq_true.mp hvalid.1 _ hd) (by decide)
    obtain ⟨ha, ha'⟩ := hdigit a (by simp)
    obtain ⟨hb, hb'⟩ := hdigit b (by simp)
    have hplain := hliteral (by decide : (120 : UInt8) ≠ 34) (by decide)
      (hliteral ha ha' (hliteral hb hb' hrest))
    have hend : ¬ AtEnd (92 :: 120 :: a :: b :: (spelled us ++ 34 :: tail)) :=
      not_atEnd_text hvalid _
    refine ⟨0 :: 120 :: a :: b :: chars, ?_, .inr ⟨fun h => ?_, ?_⟩⟩
    · rw [spelled_cons, List.append_assoc]
      refine (unescape_cons hend (readChar_hex _)).trans ?_
      rw [List.drop_succ_cons, List.drop_zero, hplain, Option.map_some, List.length_append]
      have hlen : 1 + ((spelled us).length + 1 + 1 + 1 + 1) =
          (hex a b).text.length + (spelled us).length + 1 := by
        rw [show (hex a b).text.length = 4 from rfl]
        omega
      exact congrArg (fun used => some (0 :: 120 :: a :: b :: chars, used)) hlen
    · exact Bool.false_ne_true ((h.1 _ List.mem_cons_self).symm.trans rfl)
    · exact Nat.succ_pos _

end Cons

theorem length_takeWhile_cons_le (c : UInt8) (chars : List UInt8) :
    ((c :: chars).takeWhile (· ≠ 0)).length ≤ (chars.takeWhile (· ≠ 0)).length + 1 := by
  rw [List.takeWhile_cons]
  split
  · exact Nat.le_refl _
  · exact Nat.zero_le _

/-- An octal number in front of an octal digit takes some literals with it. -/
theorem reads_octal {a b c : UInt8} {u : Spelling} {us : List Spelling} {tail : List UInt8}
    (hvalid : (octal a b c).Valid) (hu : u.startsWithDigit 8 = true)
    (ih : Reads ((u :: us).dropWhile (startsWithDigit 8)) tail) :
    Reads (octal a b c :: u :: us) tail := by
  obtain ⟨chars, hrest, hle⟩ := ih.length_le
  obtain ⟨digits, htake, hlen, hdrop⟩ := takeWhile_spelled (u :: us) tail
  have hread := readChar_octal (List.all_eq_true.mp hvalid.1) (spelled (u :: us) ++ 34 :: tail)
  have hend : ¬ AtEnd (92 :: a :: b :: c :: (spelled (u :: us) ++ 34 :: tail)) :=
    not_atEnd_text hvalid _
  have hsplit := congrArg List.length
    (List.takeWhile_append_dropWhile (p := startsWithDigit 8) (l := u :: us))
  have htaken : 1 ≤ digits.length := by
    rw [hlen, List.takeWhile_cons_of_pos hu]
    exact Nat.succ_pos _
  have hprefix :=
    (List.takeWhile_prefix (isDigitOf 8) (l := spelled (u :: us) ++ 34 :: tail)).length_le
  have hrestlen := congrArg List.length hdrop
  rw [htake] at hread hprefix
  rw [List.length_append, ← hlen] at hsplit
  rw [List.length_append] at hprefix
  rw [List.length_drop, List.length_append, List.length_append] at hrestlen
  refine ⟨UInt8.ofNat (strtoul 8 (a :: b :: c :: (spelled (u :: us) ++ 34 :: tail))).1 :: chars,
    ?_, .inr ⟨fun h => ?_, ?_⟩⟩
  · rw [spelled_cons, List.append_assoc]
    refine (unescape_cons hend hread).trans ?_
    simp only [List.drop_succ_cons, hdrop, hrest, Option.map_some, List.length_append]
    have hused : digits.length + 4 +
          ((spelled ((u :: us).dropWhile (startsWithDigit 8))).length + 1) =
        (octal a b c).text.length + (spelled (u :: us)).length + 1 := by
      rw [show (octal a b c).text.length = 4 from rfl]
      omega
    rw [hused]
  · exact Bool.false_ne_true (((decodes_cons.mp h).1.2 u rfl rfl).symm.trans hu)
  · refine Nat.lt_of_le_of_lt (length_takeWhile_cons_le _ _) ?_
    simp only [List.length_cons] at hsplit ⊢
    omega

/-- Each string that is spelled is read up to the quote behind it. -/
theorem reads_of_valid (units : List Spelling) (hvalid : ∀ u ∈ units, u.Valid)
    (tail : List UInt8) : Reads units tail := by
  induction hn : units.length using Nat.strong_induction_on generalizing units with
  | h n ih =>
    cases units with
    | nil => exact ⟨[], unescape_quote tail, .inl ⟨decodes_nil, rfl⟩⟩
    | cons u us =>
      obtain ⟨hu, hus⟩ := List.forall_mem_cons.mp hvalid
      have hshort : us.length < n := hn ▸ Nat.lt_succ_self us.length
      have ihus := ih _ hshort us hus rfl
      cases u with
      | literal c =>
        exact reads_cons hu ihus rfl (fun _ _ h => nomatch h) (readChar_literal hu.2.1 _)
      | named c =>
        obtain ⟨b, hb⟩ := Option.isSome_iff_exists.mp hu
        refine reads_cons hu ihus rfl (fun _ _ h => nomatch h) ?_
        rw [byte, hb]
        exact readChar_named hb _
      | octal a b c =>
        -- an octal escape takes at most three digits, but `strtoul` takes all that
        -- follow: what is read depends on the units behind it
        by_cases hnext : ∀ v ∈ us.head?, v.startsWithDigit 8 = false
        · refine reads_cons hu ihus rfl (fun v hv _ => hnext v hv) ?_
          have hnone : us.takeWhile (startsWithDigit 8) = [] := by
            cases us with
            | nil => rfl
            | cons v us =>
              exact List.takeWhile_cons_of_neg (by rw [hnext v rfl]; exact Bool.false_ne_true)
          obtain ⟨digits, htake, hlen, -⟩ := takeWhile_spelled us tail
          rw [hnone, List.length_nil, List.length_eq_zero_iff] at hlen
          rw [hlen] at htake
          have hdigits := List.all_eq_true.mp hu.1
          have hread := readChar_octal hdigits (spelled us ++ 34 :: tail)
          rw [strtoul_octal hdigits _ hu.2.2 htake, htake] at hread
          exact hread
        · cases us with
          | nil => exact absurd (fun v hv => nomatch hv) hnext
          | cons v us =>
            have hv : v.startsWithDigit 8 = true := by
              by_contra hv
              exact hnext fun w hw => by
                rw [← Option.some.inj hw]
                exact Bool.not_eq_true _ ▸ hv
            -- the digits behind it are passed over with it, so the induction goes on
            -- behind them
            have hless := (List.dropWhile_suffix (startsWithDigit 8) (l := v :: us))
            exact reads_octal hu hv (ih _ (Nat.lt_of_le_of_lt hless.length_le hshort) _
              (fun w hw => hus w (hless.mem hw)) rfl)
      | hex a b => exact reads_hex hu ihus rfl

/-- A string that is spelled, with its closing quote, becomes the characters that are
meant if and only if each spelling is one that `parse_string` reads as it is meant.
Spellings that are not read as they are meant are hexadecimal numbers, and octal ones in
front of an octal digit. -/
theorem parseString_spelling_iff {units : List Spelling} (h : Spells units)
    (front : List UInt8) {tail : List UInt8} (htail : 0 ∉ tail) (rest : List UInt8) :
    (∃ mem, parseString (front ++ (spelled units ++ 34 :: tail ++ 0 :: rest)) front.length =
        some (mem, some (front.length + (spelled units).length + 1)) ∧
      stringAt mem front.length = some (units.map byte)) ↔ Decodes units := by
  have hzero : 0 ∉ spelled units ++ 34 :: tail := fun hmem => by
    rcases List.mem_append.mp hmem with hmem | hmem
    · exact zero_not_mem_spelled h.1 hmem
    · exact (List.mem_cons.mp hmem).elim (by decide) htail
  obtain ⟨chars, hread, hchars⟩ := reads_of_valid units h.1 tail
  have hparse := parseString_eq front hzero rest
  rw [hread] at hparse
  dsimp only at hparse
  have hstring : ∀ behind, stringAt (front ++ (chars ++ 0 :: behind)) front.length =
      some (chars.takeWhile (· ≠ 0)) := fun behind => by
    rw [stringAt, List.drop_left, cStringList_cut]
  rw [hparse, ← Nat.add_assoc]
  constructor
  · rintro ⟨mem, hmem, hbytes⟩
    rw [← (Prod.mk.inj (Option.some.inj hmem)).1, hstring] at hbytes
    rcases hchars with ⟨hdecodes, -⟩ | ⟨-, hlt⟩
    · exact hdecodes
    · rw [Option.some.inj hbytes, List.length_map] at hlt
      exact absurd hlt (Nat.lt_irrefl _)
  · intro hdecodes
    rcases hchars with ⟨-, rfl⟩ | ⟨hnot, -⟩
    · refine ⟨_, rfl, ?_⟩
      rw [hstring, takeWhile_ne_zero]
      intro hmem
      obtain ⟨u, hu, hbyte⟩ := List.mem_map.mp hmem
      exact (h.1 u hu).byte_ne (hdecodes.1 u hu) hbyte
    · exact absurd hdecodes hnot

/-- A line feed, a letter and an octal number in front of a letter. -/
theorem parseString_spelling_iff_letters :
    ∃ mem, parseString
        (spelled [named 110, literal 65, octal 49 48 49, literal 66] ++ 34 :: [10] ++ 0 :: []) 0 =
          some (mem, some 9) ∧
      stringAt mem 0 = some [10, 65, 65, 66] := by
  have hspells : Spells [named 110, literal 65, octal 49 48 49, literal 66] := by decide
  have htail : (0 : UInt8) ∉ [10] := by decide
  exact (parseString_spelling_iff hspells [] htail []).mpr (by decide)

/-- `\x41` does not become an `A`. -/
theorem hex_not_decoded : Spells [hex 52 49] ∧
    ¬ ∃ mem, parseString (spelled [hex 52 49] ++ [34, 0]) 0 = some (mem, some 5) ∧
      stringAt mem 0 = some [65] := by
  refine ⟨by decide, ?_⟩
  rintro ⟨mem, hmem, hstring⟩
  have hrun : parseString (spelled [hex 52 49] ++ [34, 0]) 0 =
      some ([0, 120, 52, 49, 0, 0], some 5) := by decide
  rw [← (Prod.mk.inj (Option.some.inj (hrun.symm.trans hmem))).1] at hstring
  exact absurd hstring (by decide)

end Gnuais
