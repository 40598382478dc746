import Mathlib.Algebra.Group.Nat.Defs
import Mathlib.Data.List.Basic
import Mathlib.Data.Int.Notation
import Mathlib.Order.Basic

/-!
# Printed numbers

The characters that C's conversions `%d` and `%f` print.

* `Numeral` — an optional sign, the digits before the point and those behind
  it. That there are only digits, and no zero in front of another digit, is part
  of the type.
* `Numeral.ofInt` — what `%d` prints.
-/

/-- The characters of a string, each as one byte. -/
def ascii (s : String) : List UInt8 := s.toList.map fun c => UInt8.ofNat c.toNat

/-- A decimal digit. -/
def IsDigit (c : UInt8) : Prop := 48 ≤ c ∧ c ≤ 57

instance : DecidablePred IsDigit := fun c => inferInstanceAs (Decidable (48 ≤ c ∧ c ≤ 57))

/-- A number as it is printed; no digits behind the point, no point. -/
structure Numeral where
  /-- a minus is printed -/
  negative : Bool
  /-- the digits before the point -/
  int : List UInt8
  /-- those behind it -/
  frac : List UInt8
  /-- a zero is printed as well -/
  int_ne_nil : int ≠ []
  /-- only digits -/
  int_digit : ∀ c ∈ int, IsDigit c
  frac_digit : ∀ c ∈ frac, IsDigit c
  /-- a zero only stands alone -/
  no_leading_zero : int.head? = some 48 → int = [48]
  deriving DecidableEq

namespace Numeral

/-- The part behind the digits before the point. -/
def fracText (n : Numeral) : List UInt8 := if n.frac = [] then [] else 46 :: n.frac

/-- The number without its sign. -/
def digits (n : Numeral) : List UInt8 := n.int ++ n.fracText

/-- The characters. -/
def text (n : Numeral) : List UInt8 := (if n.negative then [45] else []) ++ n.digits

/-- A sign, a point and the digits. -/
theorem length_text_le (n : Numeral) :
    n.text.length ≤ n.int.length + (if n.frac = [] then 0 else n.frac.length + 1) + 1 := by
  have hsign : (if n.negative then [(45 : UInt8)] else []).length ≤ 1 := by
    split <;> decide
  have hfrac : n.fracText.length = if n.frac = [] then 0 else n.frac.length + 1 := by
    rw [fracText]
    split <;> rfl
  rw [text, digits, List.length_append, List.length_append, hfrac]
  omega

/-- The first character behind the sign is a digit. -/
theorem digits_eq_cons (n : Numeral) : ∃ d ds, n.digits = d :: ds ∧ IsDigit d ∧
    ∀ c ∈ ds, IsDigit c ∨ c = 46 := by
  obtain ⟨d, ds, hint⟩ := List.exists_cons_of_ne_nil n.int_ne_nil
  refine ⟨d, ds ++ n.fracText, ?_, ?_, ?_⟩
  · rw [digits, hint, List.cons_append]
  · exact n.int_digit d (by rw [hint]; exact List.mem_cons_self ..)
  · intro c hc
    rcases List.mem_append.mp hc with hc | hc
    · exact .inl (n.int_digit c (by rw [hint]; exact List.mem_cons_of_mem _ hc))
    · rw [fracText] at hc
      split at hc
      · cases hc
      · rcases List.mem_cons.mp hc with rfl | hc
        · exact .inr rfl
        · exact .inl (n.frac_digit c hc)

/-! ## Decimal digits

The digits of a number, by dividing by ten. -/

/-- The digits of a natural number. -/
def decimal (n : ℕ) : List UInt8 := (Nat.toDigits 10 n).map fun c => UInt8.ofNat c.toNat

/-- The last digit comes off the end. -/
theorem decimal_eq (n : ℕ) :
    decimal n = (if n < 10 then [] else decimal (n / 10)) ++ [UInt8.ofNat (48 + n % 10)] := by
  have hlast : UInt8.ofNat (Nat.digitChar (n % 10)).toNat = UInt8.ofNat (48 + n % 10) := by
    rw [Nat.toNat_digitChar_of_lt_ten (Nat.mod_lt n (by decide))]
  rw [decimal, Nat.toDigits_eq_if (by decide)]
  split
  · next h =>
    rw [Nat.mod_eq_of_lt h] at hlast ⊢
    rw [List.map_singleton, hlast]
    rfl
  · rw [List.map_append, List.map_singleton, hlast]
    rfl

/-- There is one at least. -/
theorem decimal_ne_nil (n : ℕ) : decimal n ≠ [] := by
  rw [decimal_eq]
  exact List.append_ne_nil_of_right_ne_nil _ (List.cons_ne_nil _ _)

/-- A digit as a character. -/
theorem toNat_digit {d : ℕ} (h : d < 10) : (UInt8.ofNat (48 + d)).toNat = 48 + d :=
  Nat.mod_eq_of_lt (by omega)

/-- All of them are digits. -/
theorem isDigit_of_mem_decimal {n : ℕ} {c : UInt8} (h : c ∈ decimal n) : IsDigit c := by
  induction n using Nat.strongRecOn with
  | _ n ih =>
    rw [decimal_eq, List.mem_append, List.mem_singleton] at h
    rcases h with h | rfl
    · split at h
      · cases h
      · exact ih (n / 10) (by omega) h
    · have hval := toNat_digit (Nat.mod_lt n (show 10 > 0 by decide))
      constructor
      · rw [UInt8.le_iff_toNat_le, hval]
        exact Nat.le_add_right _ _
      · rw [UInt8.le_iff_toNat_le, hval]
        exact Nat.add_le_add_left (Nat.le_of_lt_succ (Nat.mod_lt n (by decide))) 48

/-- The number a list of digits stands for. -/
def valueOf (cs : List UInt8) : ℕ := cs.foldl (fun v c => 10 * v + (c.toNat - 48)) 0

/-- Only zero starts with a zero. -/
theorem decimal_head {n : ℕ} (h : (decimal n).head? = some 48) : decimal n = [48] := by
  have hpos : ∀ n, 0 < n → (decimal n).head? ≠ some 48 := by
    intro n
    induction n using Nat.strongRecOn with
    | _ n ih =>
      intro hn
      rw [decimal_eq]
      split
      · next hlt =>
        intro hzero
        have hval := congrArg UInt8.toNat (Option.some.inj hzero)
        rw [toNat_digit (Nat.mod_lt n (by decide))] at hval
        have hdigit : 48 + n % 10 = 48 := hval
        omega
      · next hge =>
        rw [List.head?_append_of_ne_nil _ (decimal_ne_nil _)]
        exact ih (n / 10) (by omega) (by omega)
  rcases Nat.eq_zero_or_pos n with rfl | hn
  · rfl
  · exact absurd h (hpos n hn)

theorem length_decimal_le {n k : ℕ} (hk : 0 < k) (h : n < 10 ^ k) : (decimal n).length ≤ k := by
  rw [decimal, List.length_map]
  exact (Nat.length_toDigits_le_iff (by decide) hk).mpr h

/-- What `%d` prints. -/
def ofInt (i : ℤ) : Numeral where
  negative := decide (i < 0)
  int := decimal i.natAbs
  frac := []
  int_ne_nil := decimal_ne_nil _
  int_digit := fun _ => isDigit_of_mem_decimal
  frac_digit := fun _ hc => absurd hc List.not_mem_nil
  no_leading_zero := decimal_head

end Numeral
