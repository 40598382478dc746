import Mathlib.Data.List.Basic
import Mathlib.Data.List.Induction
import Mathlib.Order.Basic
import Mathlib.Tactic.Ring
import Mathlib.Data.Nat.Bitwise

/-!
# Bit lists, numbers and octets

A field of a binary message is a list of bits, most significant first; its
value is a natural number. `ofBits` and `toBits` are the two directions, and
they are inverse on lists of the given length (`toBits_ofBits`) and on numbers
that fit (`ofBits_toBits`).

Octets are `UInt8`; a serial line sends them least significant bit first
(`octetLE`), a message lists them most significant bit first (`octetBE`). A
byte array that holds one bit an element holds `byte b`.
-/

namespace Bits

/-- The elements of a list of blocks of one length. -/
theorem getElem?_flatMap_blocks {α β : Type} {f : α → List β} {k : ℕ}
    (hf : ∀ a, (f a).length = k) (hk : 0 < k) (xs : List α) :
    ∀ i : ℕ, (xs.flatMap f)[i]? = xs[i / k]?.bind fun a => (f a)[i % k]? := by
  induction xs with
  | nil => exact fun i => rfl
  | cons x xs ih =>
    intro i
    rw [List.flatMap_cons]
    by_cases hi : i < k
    · rw [List.getElem?_append_left (by rw [hf]; exact hi), Nat.div_eq_of_lt hi,
        Nat.mod_eq_of_lt hi]
      rfl
    · rw [List.getElem?_append_right (by rw [hf]; omega), hf, ih]
      rw [Nat.div_eq i k, if_pos ⟨hk, by omega⟩, List.getElem?_cons_succ,
        Nat.mod_eq_sub_mod (Nat.le_of_not_lt hi)]

/-- Their number. -/
theorem length_flatMap_blocks {α β : Type} {f : α → List β} {k : ℕ}
    (hf : ∀ a, (f a).length = k) (xs : List α) : (xs.flatMap f).length = k * xs.length := by
  induction xs with
  | nil => rfl
  | cons x xs ih =>
    rw [List.flatMap_cons, List.length_append, hf, ih, List.length_cons]
    ring

/-- The number a bit list denotes, most significant bit first. -/
def ofBits (bs : List Bool) : ℕ := bs.foldl (fun acc b => 2 * acc + b.toNat) 0

/-- The `w` low bits of a number, most significant first. -/
def toBits : ℕ → ℕ → List Bool
  | 0, _ => []
  | w + 1, v => v.testBit w :: toBits w v

@[simp] theorem ofBits_nil : ofBits [] = 0 := rfl

/-- One bit more at the low end. -/
@[simp] theorem ofBits_concat (bs : List Bool) (b : Bool) :
    ofBits (bs ++ [b]) = 2 * ofBits bs + b.toNat := by
  rw [ofBits, List.foldl_append]
  rfl

/-- The value of `w` bits is below `2 ^ w`. -/
theorem ofBits_lt (bs : List Bool) : ofBits bs < 2 ^ bs.length := by
  induction bs using List.reverseRecOn with
  | nil => simp
  | append_singleton bs b ih =>
    rw [ofBits_concat, List.length_append, List.length_singleton, pow_succ]
    have := Bool.toNat_le b
    omega

/-- One bit more at the high end. -/
theorem ofBits_cons (b : Bool) (bs : List Bool) :
    ofBits (b :: bs) = 2 ^ bs.length * b.toNat + ofBits bs := by
  induction bs using List.reverseRecOn with
  | nil => simp [ofBits]
  | append_singleton bs c ih =>
    rw [← List.cons_append, ofBits_concat, ih, ofBits_concat, List.length_append,
      List.length_singleton, pow_succ]
    ring

@[simp] theorem length_toBits (w v : ℕ) : (toBits w v).length = w := by
  induction w with
  | zero => rfl
  | succ w ih => rw [toBits, List.length_cons, ih]

/-- `toBits` sees the low bits only. -/
theorem toBits_congr {w v v' : ℕ} (h : ∀ i < w, v.testBit i = v'.testBit i) :
    toBits w v = toBits w v' := by
  induction w with
  | zero => rfl
  | succ w ih =>
    rw [toBits, toBits, h w (Nat.lt_succ_self w), ih fun i hi => h i (Nat.lt_succ_of_lt hi)]

/-- Bit `i` from the front. -/
theorem getElem?_toBits (w v i : ℕ) :
    (toBits w v)[i]? = if i < w then some (v.testBit (w - 1 - i)) else none := by
  induction w generalizing i with
  | zero => simp [toBits]
  | succ w ih =>
    cases i with
    | zero => simp [toBits]
    | succ i =>
      rw [toBits, List.getElem?_cons_succ, ih]
      by_cases hi : i < w
      · rw [if_pos hi, if_pos (by omega), show w - 1 - i = w + 1 - 1 - (i + 1) by omega]
      · rw [if_neg hi, if_neg (by omega)]

/-- Reading the value of a bit list back gives the list. -/
@[simp] theorem toBits_ofBits (bs : List Bool) : toBits bs.length (ofBits bs) = bs := by
  induction bs with
  | nil => rfl
  | cons b bs ih =>
    have hlow : ∀ i < bs.length, (ofBits (b :: bs)).testBit i = (ofBits bs).testBit i := by
      intro i hi
      rw [ofBits_cons, Nat.testBit_two_pow_mul_add _ (ofBits_lt bs), if_pos hi]
    have htop : (ofBits (b :: bs)).testBit bs.length = b := by
      rw [ofBits_cons, Nat.testBit_two_pow_mul_add _ (ofBits_lt bs), if_neg (lt_irrefl _),
        Nat.sub_self]
      cases b <;> rfl
    rw [List.length_cons, toBits, htop, toBits_congr hlow, ih]

/-- A number that fits in `w` bits is the value of its bits. -/
theorem ofBits_toBits {w v : ℕ} (h : v < 2 ^ w) : ofBits (toBits w v) = v := by
  induction w generalizing v with
  | zero =>
    rw [pow_zero] at h
    rw [toBits, ofBits_nil]
    omega
  | succ w ih =>
    have hlow : toBits w v = toBits w (v % 2 ^ w) := by
      refine toBits_congr fun i hi => ?_
      rw [Nat.testBit_mod_two_pow, decide_eq_true hi, Bool.true_and]
    rw [toBits, ofBits_cons, length_toBits, hlow, ih (Nat.mod_lt _ (Nat.two_pow_pos w))]
    have hdiv : (v.testBit w).toNat = v / 2 ^ w := by
      have hlt : v / 2 ^ w < 2 := by
        rw [Nat.div_lt_iff_lt_mul (Nat.two_pow_pos w), mul_comm, ← pow_succ]
        exact h
      rw [Nat.toNat_testBit, Nat.mod_eq_of_lt hlt]
    rw [hdiv]
    exact Nat.div_add_mod v (2 ^ w)

/-! ## Octets

The two orders are the reverse of each other. `packLE` undoes the one that is sent. -/

/-- The bits of an octet in the order a message lists them. -/
def octetBE (o : UInt8) : List Bool := toBits 8 o.toNat

/-- The bits of an octet in the order a serial line sends them. -/
def octetLE (o : UInt8) : List Bool := (octetBE o).reverse

/-- The octet with the given bits, least significant first. -/
def packLE (bs : List Bool) : UInt8 := UInt8.ofNat (ofBits bs.reverse)

@[simp] theorem length_octetBE (o : UInt8) : (octetBE o).length = 8 := length_toBits _ _

@[simp] theorem length_octetLE (o : UInt8) : (octetLE o).length = 8 := by
  rw [octetLE, List.length_reverse, length_octetBE]

/-- Packing the bits of an octet gives the octet. -/
@[simp] theorem packLE_octetLE (o : UInt8) : packLE (octetLE o) = o := by
  rw [packLE, octetLE, List.reverse_reverse, octetBE, ofBits_toBits (UInt8.toNat_lt o)]
  exact UInt8.ofNat_toNat

/-- Eight bits are the bits of the octet they pack to. -/
theorem octetLE_packLE {bs : List Bool} (h : bs.length = 8) : octetLE (packLE bs) = bs := by
  have hlt : ofBits bs.reverse < 2 ^ 8 := by
    have := ofBits_lt bs.reverse
    rwa [List.length_reverse, h] at this
  have hto : (packLE bs).toNat = ofBits bs.reverse := by
    rw [packLE, UInt8.toNat_ofNat']
    exact Nat.mod_eq_of_lt hlt
  have hback : toBits 8 (ofBits bs.reverse) = bs.reverse := by
    have := toBits_ofBits bs.reverse
    rwa [List.length_reverse, h] at this
  rw [octetLE, octetBE, hto, hback, List.reverse_reverse]

/-! ## Bits stored one a byte

Programs on bits often keep each in a byte of its own, which is 0 or 1. -/

/-- The byte an array holds for a bit. -/
def byte (b : Bool) : UInt8 := if b then 1 else 0

@[simp] theorem byte_false : byte false = 0 := rfl

@[simp] theorem byte_true : byte true = 1 := rfl

@[simp] theorem toNat_byte (b : Bool) : (byte b).toNat = b.toNat := by
  cases b <;> rfl

end Bits
