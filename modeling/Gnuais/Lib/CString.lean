import Gnuais.Lib.Buffer
import Gnuais.Lib.Numeral
import Mathlib.Data.Int.Order.Basic

/-!
# Strings in memory

A program that takes a string apart where it stands. Memory is a list of characters
and a pointer an index; a string is read up to its terminator (`stringAt`), and a
store outside the memory is `none` (`put`).

* `stringAt_skip` — a string from some character on.
* `scan` — what `strtol` and `strtoul` read of a string, and how far they come.
* `strtoul`, `atoi` — the numbers they make of it, cut off at the largest value.
-/

namespace CString

open Buffer

/-! ## Characters of the C locale

Those the library functions below rest on. -/

/-- `isspace`: a blank, or one of the five control characters from the tab on. -/
def isspace (c : UInt8) : Bool := c = 32 ∨ (9 ≤ c ∧ c ≤ 13)

/-- `tolower` -/
def tolower (c : UInt8) : UInt8 := if 65 ≤ c ∧ c ≤ 90 then c + 32 else c

/-- `strcasecmp(a, b) == 0` -/
def strcasecmpEq (a b : List UInt8) : Bool := a.map tolower = b.map tolower

/-- `strncasecmp(a, b, n) == 0` -/
def strncasecmpEq (a b : List UInt8) (n : ℕ) : Bool :=
  (a.take n).map tolower = (b.take n).map tolower

/-! ## Memory

A pointer into a string stands between a front part, which was read, and a rest, which was
not. Most facts are stated for memory split in this way. -/

/-- The string at a pointer. -/
def stringAt (mem : List UInt8) (pos : ℕ) : Option (List UInt8) := cStringList (mem.drop pos)

/-- A store. -/
def put (mem : List UInt8) (pos : ℕ) (c : UInt8) : Option (List UInt8) :=
  if pos < mem.length then some (mem.set pos c) else none

/-- A string ends at the first terminator. -/
theorem cStringList_cut (chars rest : List UInt8) :
    cStringList (chars ++ 0 :: rest) = some (chars.takeWhile (· ≠ 0)) := by
  rw [← List.singleton_append, ← List.append_assoc, cStringList_append (by simp),
    takeWhile_terminated]

/-- A string without its terminator is read in front of it. -/
theorem cStringList_terminated {s : List UInt8} (hs : 0 ∉ s) (rest : List UInt8) :
    cStringList (s ++ 0 :: rest) = some s := by
  rw [cStringList_cut, takeWhile_ne_zero hs]

/-- A string is what stands in front of a terminator. -/
theorem cStringList_some {text s : List UInt8} (h : cStringList text = some s) :
    0 ∉ s ∧ ∃ rest, text = s ++ 0 :: rest := by
  induction text generalizing s with
  | nil => cases h
  | cons c text ih =>
    rw [cStringList] at h
    by_cases hc : c = 0
    · rw [if_pos hc] at h
      rw [← Option.some.inj h, hc]
      exact ⟨List.not_mem_nil, text, rfl⟩
    · rw [if_neg hc] at h
      obtain ⟨s', hs', rfl⟩ := Option.map_eq_some_iff.mp h
      obtain ⟨hzero, rest, rfl⟩ := ih hs'
      refine ⟨fun hmem => ?_, rest, rfl⟩
      rcases List.mem_cons.mp hmem with h0 | hmem
      · exact hc h0.symm
      · exact hzero hmem

/-- What stands at the end of some memory. -/
theorem stringAt_append {front s : List UInt8} (hs : 0 ∉ s) (rest : List UInt8) :
    stringAt (front ++ (s ++ 0 :: rest)) front.length = some s := by
  rw [stringAt, List.drop_left, cStringList_terminated hs]

/-- A string and its terminator stand in the memory. -/
theorem stringAt_lt {mem s : List UInt8} {pos : ℕ} (h : stringAt mem pos = some s) :
    pos + s.length < mem.length := by
  obtain ⟨-, rest, hdrop⟩ := cStringList_some h
  have hlen := congrArg List.length hdrop
  rw [List.length_drop, List.length_append, List.length_cons] at hlen
  omega

/-- A string that ends in the front part does not depend on the rest. -/
theorem stringAt_front {front s : List UInt8} {pos : ℕ} (h : stringAt front pos = some s)
    (rest : List UInt8) : stringAt (front ++ rest) pos = some s := by
  obtain ⟨hs, more, hfront⟩ := cStringList_some h
  have hle : pos ≤ front.length := by
    have hlt := stringAt_lt h
    omega
  rw [stringAt, List.drop_append_of_le_length hle, hfront, List.append_assoc, List.cons_append,
    cStringList_terminated hs]

/-- A store behind the front part. -/
theorem put_append (front : List UInt8) (old new : UInt8) (rest : List UInt8) :
    put (front ++ old :: rest) front.length new = some (front ++ new :: rest) := by
  rw [put, if_pos (by rw [List.length_append, List.length_cons]; omega), List.set_append_right _ _
    (Nat.le_refl _), Nat.sub_self, List.set_cons_zero]

/-! ## Numbers

The two functions read as many characters as can belong to a number. What they make of a
number that is too large is the largest they have. -/

/-- The value of a digit in the bases up to 36. -/
def digitValue (c : UInt8) : Option ℕ :=
  if IsDigit c then some (c.toNat - 48)
  else if 97 ≤ c ∧ c ≤ 122 then some (c.toNat - 87)
  else if 65 ≤ c ∧ c ≤ 90 then some (c.toNat - 55)
  else none

/-- A digit of a base. -/
def isDigitOf (base : ℕ) (c : UInt8) : Bool := (digitValue c).any (· < base)

/-- The number some digits stand for. -/
def numberOf (base : ℕ) (digits : List UInt8) : ℕ :=
  digits.foldl (fun n c => n * base + (digitValue c).getD 0) 0

/-- The sign in front of a number: whether it is a minus, and its length. -/
def signOf : List UInt8 → Bool × ℕ
  | 45 :: _ => (true, 1)
  | 43 :: _ => (false, 1)
  | _ => (false, 0)

/-- The length of `0x` in front of a hexadecimal digit. -/
def hexLength (base : ℕ) : List UInt8 → ℕ
  | 48 :: x :: c :: _ => if base = 16 ∧ (x = 120 ∨ x = 88) ∧ isDigitOf 16 c then 2 else 0
  | _ => 0

/-- A number at the start of a string, and the characters it takes. -/
structure Scanned where
  /-- there was a minus in front -/
  negative : Bool
  /-- the digits' number -/
  value : ℕ
  /-- how many characters were read -/
  used : ℕ
  deriving DecidableEq, Repr

/-- What `strtol` and `strtoul` read: white space, a sign, `0x` in base 16, and the
digits. Without a digit they read nothing. -/
def scan (base : ℕ) (s : List UInt8) : Scanned :=
  let blanks := (s.takeWhile isspace).length
  let (negative, signLength) := signOf (s.drop blanks)
  let start := blanks + signLength
  let start := start + hexLength base (s.drop start)
  let digits := (s.drop start).takeWhile (isDigitOf base)
  if digits = [] then ⟨false, 0, 0⟩ else ⟨negative, numberOf base digits, start + digits.length⟩

/-- `strtoul(s, &end, base)` of a 64-bit `unsigned long`: the number, and how far
`end` is behind `s`. -/
def strtoul (base : ℕ) (s : List UInt8) : ℕ × ℕ :=
  let r := scan base s
  (if 2 ^ 64 ≤ r.value then 2 ^ 64 - 1
    else if r.negative then (2 ^ 64 - r.value) % 2 ^ 64 else r.value, r.used)

/-- `atoi(s)`: `strtol` in base 10, converted to a 32-bit `int`. -/
def atoi (s : List UInt8) : ℤ :=
  let r := scan 10 s
  let long : ℤ :=
    if r.negative then -(min r.value (2 ^ 63) : ℕ) else (min r.value (2 ^ 63 - 1) : ℕ)
  long.bmod (2 ^ 32)

/-! ## Strings that start with a digit

There is no white space to skip and no sign to look at. -/

/-- A decimal digit stands for its distance from `0`. -/
theorem digitValue_digit {c : UInt8} (h : IsDigit c) : digitValue c = some (c.toNat - 48) := if_pos h

/-- The digits of a base up to 10. -/
theorem isDigitOf_iff {base : ℕ} (hbase : base ≤ 10) {c : UInt8} :
    isDigitOf base c = true ↔ 48 ≤ c.toNat ∧ c.toNat < 48 + base := by
  have hdigit : IsDigit c ↔ 48 ≤ c.toNat ∧ c.toNat ≤ 57 := by
    rw [IsDigit, UInt8.le_iff_toNat_le, UInt8.le_iff_toNat_le]
    rfl
  rw [isDigitOf, digitValue]
  by_cases hc : IsDigit c
  · rw [if_pos hc, Option.any_some, decide_eq_true_iff]
    have hrange := hdigit.mp hc
    omega
  · rw [if_neg hc]
    have hrange : ¬ (48 ≤ c.toNat ∧ c.toNat < 48 + base) := fun h =>
      hc (hdigit.mpr ⟨h.1, by omega⟩)
    -- a letter stands for 10 at least
    split_ifs with hlower hupper
    · have hlow : 97 ≤ c.toNat := UInt8.le_iff_toNat_le.mp hlower.1
      rw [Option.any_some, decide_eq_true_iff]
      omega
    · have hlow : 65 ≤ c.toNat := UInt8.le_iff_toNat_le.mp hupper.1
      rw [Option.any_some, decide_eq_true_iff]
      omega
    · exact iff_of_false Bool.false_ne_true hrange

/-- A digit is neither white space nor a sign. -/
theorem digit_plain {c : UInt8} (h : IsDigit c) : isspace c = false ∧ c ≠ 45 ∧ c ≠ 43 := by
  have hlow := UInt8.le_iff_toNat_le.mp h.1
  refine ⟨decide_eq_false ?_, ?_, ?_⟩
  · rintro (rfl | ⟨-, hhigh⟩)
    · exact absurd h.1 (by decide)
    · have hle := hlow.trans (UInt8.le_iff_toNat_le.mp hhigh)
      exact absurd hle (by decide)
  · rintro rfl
    exact absurd h.1 (by decide)
  · rintro rfl
    exact absurd h.1 (by decide)

/-- Another character is no sign. -/
theorem signOf_plain {c : UInt8} (hminus : c ≠ 45) (hplus : c ≠ 43) (rest : List UInt8) :
    signOf (c :: rest) = (false, 0) := by
  unfold signOf
  split
  · rename_i heq
    exact absurd (List.cons_eq_cons.mp heq).1 hminus
  · rename_i heq
    exact absurd (List.cons_eq_cons.mp heq).1 hplus
  · rfl

/-- Without `0x` a number that starts with a digit is its digits. -/
theorem scan_digits {base : ℕ} {s : List UInt8} {c : UInt8} (hc : s.head? = some c)
    (hdigit : IsDigit c) (hof : isDigitOf base c = true) (hbase : base ≠ 16) :
    scan base s = ⟨false, numberOf base (s.takeWhile (isDigitOf base)),
      (s.takeWhile (isDigitOf base)).length⟩ := by
  obtain ⟨rest, rfl⟩ := List.head?_eq_some_iff.mp hc
  obtain ⟨hspace, hminus, hplus⟩ := digit_plain hdigit
  have hblanks : (c :: rest).takeWhile isspace = [] :=
    List.takeWhile_cons_of_neg (by rw [hspace]; decide)
  have hhex : hexLength base (c :: rest) = 0 := by
    unfold hexLength
    split
    · exact if_neg fun h => hbase h.1
    · rfl
  have hne : (c :: rest).takeWhile (isDigitOf base) ≠ [] := by
    rw [List.takeWhile_cons_of_pos hof]
    exact List.cons_ne_nil _ _
  simp only [scan, hblanks, List.length_nil, List.drop_zero, signOf_plain hminus hplus rest,
    Nat.add_zero, hhex, Nat.zero_add, if_neg hne]

/-- `atoi` of some digits. -/
theorem atoi_digits {digits : List UInt8} (hdigits : ∀ c ∈ digits, IsDigit c)
    (hlt : numberOf 10 digits < 2 ^ 31) : atoi digits = numberOf 10 digits := by
  cases digits with
  | nil => rfl
  | cons c s =>
    have hof : ∀ d ∈ c :: s, isDigitOf 10 d = true := fun d hd =>
      (isDigitOf_iff (Nat.le_refl 10)).mpr
        ⟨UInt8.le_iff_toNat_le.mp (hdigits d hd).1,
          Nat.lt_succ_of_le (UInt8.le_iff_toNat_le.mp (hdigits d hd).2)⟩
    rw [atoi, scan_digits rfl (hdigits c List.mem_cons_self) (hof c List.mem_cons_self) (by decide),
      List.takeWhile_eq_self_iff.mpr hof]
    dsimp only
    rw [if_neg Bool.false_ne_true, Nat.min_eq_left (by omega)]
    exact Int.bmod_eq_of_le_mul_two (by omega) (by omega)

/-- Nothing is read of a string that does not start with a digit, white space or a
sign. -/
theorem scan_none {base : ℕ} {s : List UInt8} {c : UInt8} (hc : s.head? = some c)
    (hspace : isspace c = false) (hminus : c ≠ 45) (hplus : c ≠ 43) (hzero : c ≠ 48)
    (hof : isDigitOf base c = false) : scan base s = ⟨false, 0, 0⟩ := by
  obtain ⟨rest, rfl⟩ := List.head?_eq_some_iff.mp hc
  have hblanks : (c :: rest).takeWhile isspace = [] :=
    List.takeWhile_cons_of_neg (by rw [hspace]; decide)
  have hhex : hexLength base (c :: rest) = 0 := by
    unfold hexLength
    split
    · rename_i heq
      exact absurd (List.cons_eq_cons.mp heq).1 hzero
    · rfl
  have hdigits : (c :: rest).takeWhile (isDigitOf base) = [] :=
    List.takeWhile_cons_of_neg (by rw [hof]; decide)
  simp only [scan, hblanks, List.length_nil, List.drop_zero, signOf_plain hminus hplus rest,
    Nat.add_zero, hhex, hdigits, if_pos]

/-- No more characters are read than there are. -/
theorem scan_used_le (base : ℕ) (s : List UInt8) : (scan base s).used ≤ s.length := by
  simp only [scan]
  split
  · exact Nat.zero_le _
  · rename_i hdigits
    generalize hstart : (s.takeWhile isspace).length + _ + _ = start at hdigits ⊢
    have hle := (List.takeWhile_prefix (isDigitOf base) (l := s.drop start)).length_le
    have hpos := List.length_pos_iff.mpr hdigits
    rw [List.length_drop] at hle
    dsimp only
    omega

end CString
