import Gnuais.Demod
import Gnuais.Lib.Numeral

/-!
# Printed numbers of the exports

`%d`, `%ld` and the `%f` conversions, as the database and the JSON export use
them. What `%f` prints of a floating-point value is a parameter
(`FloatFormat`): values stay expressions here, and all that is known is that
something of the shape of a number is printed, of bounded length.
-/

namespace Gnuais

open Numeral

/-- The conversion `%.<prec>f` of a `float`: below 2^128 there are at most 39
digits before the point. -/
structure FloatFormat where
  /-- what `%.<prec>f` prints -/
  fixed : ℕ → FloatExpr → Numeral
  /-- a sign, the digits before the point, the point, and the digits behind it -/
  length_le : ∀ prec x, (fixed prec x).text.length ≤ 41 + prec

/-- `%d` of an `int` -/
def printInt (i : ℤ) : Numeral := .ofInt (Int32.ofInt i).toInt

/-- `%ld` of a `time_t` -/
def printLong (i : ℤ) : Numeral := .ofInt (Int64.ofInt i).toInt

/-- The length of a number, from the size of it. -/
theorem length_ofInt_le {i : ℤ} {k : ℕ} (hk : 0 < k) (h : i.natAbs < 10 ^ k) :
    (Numeral.ofInt i).text.length ≤ k + 1 := by
  have hdigits := length_decimal_le hk h
  have hlen := length_text_le (.ofInt i)
  rw [if_pos (show (Numeral.ofInt i).frac = [] from rfl),
    show (Numeral.ofInt i).int = decimal i.natAbs from rfl] at hlen
  omega

/-- A number of 32 bits has 11 characters at most. -/
theorem length_printInt_le (i : ℤ) : (printInt i).text.length ≤ 11 := by
  have hlow := Int32.le_toInt (Int32.ofInt i)
  have hhigh := Int32.toInt_lt (Int32.ofInt i)
  exact length_ofInt_le (by decide) (by omega)

/-- And one of 64 bits 20. -/
theorem length_printLong_le (i : ℤ) : (printLong i).text.length ≤ 20 := by
  have hlow := Int64.le_toInt (Int64.ofInt i)
  have hhigh := Int64.toInt_lt (Int64.ofInt i)
  exact length_ofInt_le (by decide) (by omega)

/-- Zero with some digits behind the point. -/
def zeroNumeral (prec : ℕ) : Numeral where
  negative := false
  int := [48]
  frac := List.replicate prec 48
  int_ne_nil := List.cons_ne_nil _ _
  int_digit := fun c hc => by
    obtain rfl := List.mem_singleton.mp hc
    decide
  frac_digit := fun c hc => by
    rw [List.eq_of_mem_replicate hc]
    decide
  no_leading_zero := fun _ => rfl

/-- A conversion that prints zeros. -/
def FloatFormat.zero : FloatFormat where
  fixed prec _ := zeroNumeral prec
  length_le prec x := by
    refine Nat.le_trans (length_text_le (zeroNumeral prec)) ?_
    have hfrac : (zeroNumeral prec).frac.length = prec := List.length_replicate
    rw [show (zeroNumeral prec).int.length = 1 from rfl]
    split <;> omega

end Gnuais
