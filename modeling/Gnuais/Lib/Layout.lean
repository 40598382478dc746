import Gnuais.Lib.Bits

/-!
# Messages laid out field by field

A binary message is a list of fields, each as wide as its place in the layout;
`pack` lists their bits one after the other. What stands at some position of the
packed message is then known from the field that lies there:
`drop_take_pack` inside one field, `drop_take_pack_two` across the border of
two.

* `Field.number` — a number in as many bits as it is wide.
* `Field.letters` — letters of one width, one after the other.
-/

namespace Layout

open Bits

/-! ## The bits of numbers

How the value of a list of bits is made up from the values of its parts. -/

/-- The value of two stretches, one after the other. -/
theorem ofBits_append (xs ys : List Bool) :
    ofBits (xs ++ ys) = ofBits xs * 2 ^ ys.length + ofBits ys := by
  induction xs with
  | nil => rw [List.nil_append, ofBits_nil, Nat.zero_mul, Nat.zero_add]
  | cons x xs ih =>
    rw [List.cons_append, ofBits_cons, ofBits_cons, ih, List.length_append, pow_add]
    ring

/-- Bit lists of one length with the same value are equal. -/
theorem ofBits_inj {xs ys : List Bool} (hlen : xs.length = ys.length) :
    ofBits xs = ofBits ys ↔ xs = ys := by
  constructor
  · intro h
    rw [← toBits_ofBits xs, h, hlen, toBits_ofBits]
  · rintro rfl
    rfl

/-- The last bits of a number are its low ones. -/
theorem drop_toBits (w v j : ℕ) : (toBits w v).drop j = toBits (w - j) v := by
  induction w generalizing j with
  | zero =>
    rw [Nat.zero_sub]
    exact List.drop_nil
  | succ w ih =>
    cases j with
    | zero => rfl
    | succ j => rw [toBits, List.drop_succ_cons, ih, Nat.succ_sub_succ]

/-- The first bits of a number are its high ones. -/
theorem take_toBits {w j : ℕ} (v : ℕ) (h : j ≤ w) :
    (toBits w v).take j = toBits j (v / 2 ^ (w - j)) := by
  apply List.ext_getElem?
  intro i
  rw [List.getElem?_take, getElem?_toBits, getElem?_toBits]
  by_cases hi : i < j
  · rw [if_pos hi, if_pos (by omega), if_pos hi, Nat.testBit_div_two_pow,
      show j - 1 - i + (w - j) = w - 1 - i by omega]
  · rw [if_neg hi, if_neg hi]

/-- The value of the low bits of a number. -/
theorem ofBits_toBits_mod (w v : ℕ) : ofBits (toBits w v) = v % 2 ^ w := by
  have hlow : toBits w v = toBits w (v % 2 ^ w) :=
    toBits_congr fun i hi => by
      rw [Nat.testBit_mod_two_pow, decide_eq_true hi, Bool.true_and]
  rw [hlow, ofBits_toBits (Nat.mod_lt _ (Nat.two_pow_pos w))]

/-! ## Fields

A field has exactly as many bits as it is wide, which is part of its type. So the places
of all fields follow from the widths. -/

/-- A field of a message: its width, and as many bits. -/
structure Field where
  /-- in bits -/
  width : ℕ
  /-- the most significant one first -/
  bits : List Bool
  /-- no more and no fewer -/
  length_bits : bits.length = width

/-- A number in as many bits as it is wide. -/
def Field.number {w : ℕ} (v : BitVec w) : Field where
  width := w
  bits := toBits w v.toNat
  length_bits := length_toBits w v.toNat

/-- Letters of `k` bits each that fill a field. -/
def Field.letters {w : ℕ} (k : ℕ) (codes : List ℕ) (hfill : k * codes.length = w) : Field where
  width := w
  bits := codes.flatMap (toBits k)
  length_bits := (length_flatMap_blocks (fun _ => length_toBits k _) codes).trans hfill

@[simp] theorem width_number {w : ℕ} (v : BitVec w) : (Field.number v).width = w := rfl

/-- The value of a number's bits is the number. -/
@[simp] theorem ofBits_number {w : ℕ} (v : BitVec w) : ofBits (Field.number v).bits = v.toNat :=
  ofBits_toBits v.isLt

/-- The bits from a letter on. -/
theorem drop_flatMap_blocks {α β : Type} {f : α → List β} {k : ℕ}
    (hf : ∀ a, (f a).length = k) (xs : List α) :
    ∀ i : ℕ, (xs.flatMap f).drop (k * i) = (xs.drop i).flatMap f := by
  induction xs with
  | nil => exact fun i => by rw [List.flatMap_nil, List.drop_nil, List.drop_nil, List.flatMap_nil]
  | cons x xs ih =>
    intro i
    cases i with
    | zero => rfl
    | succ i =>
      rw [List.flatMap_cons, Nat.mul_succ, Nat.add_comm, ← hf x, List.drop_length_add_append, hf x,
        ih, List.drop_succ_cons]

/-- A letter of a text field. -/
theorem Field.drop_take_letters {w k : ℕ} {codes : List ℕ} {hfill : k * codes.length = w} {i c : ℕ}
    (hc : codes[i]? = some c) :
    ((Field.letters k codes hfill).bits.drop (k * i)).take k = toBits k c := by
  obtain ⟨hlt, rfl⟩ := List.getElem?_eq_some_iff.mp hc
  have hlen : (toBits k codes[i]).length = k := length_toBits k _
  rw [Field.letters, drop_flatMap_blocks (fun c => length_toBits k c),
    List.drop_eq_getElem_cons hlt, List.flatMap_cons, List.take_append_of_le_length hlen.ge,
    List.take_of_length_le hlen.le]

/-- The width of some fields. -/
def width (fields : List Field) : ℕ := (fields.map Field.width).sum

/-- The bits of a message. -/
def pack (fields : List Field) : List Bool := fields.flatMap Field.bits

@[simp] theorem pack_cons (f : Field) (fields : List Field) :
    pack (f :: fields) = f.bits ++ pack fields := rfl

@[simp] theorem width_nil : width [] = 0 := rfl

@[simp] theorem width_cons (f : Field) (fields : List Field) :
    width (f :: fields) = f.width + width fields := rfl

/-- Fields in two stretches. -/
theorem width_append (fields fields' : List Field) :
    width (fields ++ fields') = width fields + width fields' := by
  rw [width, List.map_append, List.sum_append]
  rfl

/-- A message is as long as its fields are wide. -/
@[simp] theorem length_pack (fields : List Field) : (pack fields).length = width fields := by
  induction fields with
  | nil => rfl
  | cons f fields ih => rw [pack_cons, List.length_append, f.length_bits, ih, width_cons]

/-- A field starts where the one before it ends. -/
theorem width_take_succ {fields : List Field} {i : ℕ} {f : Field} (hf : fields[i]? = some f) :
    width (fields.take (i + 1)) = width (fields.take i) + f.width := by
  rw [List.take_add_one, hf, width_append]
  rfl

/-- A field ends inside the message. -/
theorem width_take_add_le {fields : List Field} {i : ℕ} {f : Field} (hf : fields[i]? = some f) :
    width (fields.take i) + f.width ≤ width fields := by
  have hsplit := congrArg width (List.take_append_drop (i + 1) fields)
  rw [width_append, width_take_succ hf] at hsplit
  omega

/-- The bits from the start of a field on. -/
theorem drop_pack {fields : List Field} {i : ℕ} {f : Field} (hf : fields[i]? = some f) :
    (pack fields).drop (width (fields.take i)) = f.bits ++ pack (fields.drop (i + 1)) := by
  induction fields generalizing i with
  | nil => cases hf
  | cons g fields ih =>
    cases i with
    | zero =>
      obtain rfl := Option.some.inj hf
      rfl
    | succ i =>
      rw [List.getElem?_cons_succ] at hf
      rw [List.take_succ_cons, width_cons, pack_cons, ← g.length_bits, List.drop_length_add_append,
        ih hf, List.drop_succ_cons]

/-- A stretch inside a field. -/
theorem drop_take_pack {fields : List Field} {i : ℕ} {f : Field} (hf : fields[i]? = some f)
    {j len : ℕ} (h : j + len ≤ f.width) :
    ((pack fields).drop (width (fields.take i) + j)).take len = (f.bits.drop j).take len := by
  have hlen := f.length_bits
  rw [← List.drop_drop, drop_pack hf, List.drop_append_of_le_length (by omega),
    List.take_append_of_le_length (by rw [List.length_drop]; omega)]

/-- A whole field. -/
theorem drop_take_pack_field {fields : List Field} {i : ℕ} {f : Field}
    (hf : fields[i]? = some f) :
    ((pack fields).drop (width (fields.take i))).take f.width = f.bits := by
  have hfits : 0 + f.width ≤ f.width := by rw [Nat.zero_add]
  have h := drop_take_pack hf hfits
  rw [Nat.add_zero, List.drop_zero] at h
  rw [h, ← f.length_bits, List.take_length]

/-- A stretch that starts in one field and ends in the next. -/
theorem drop_take_pack_two {fields : List Field} {i : ℕ} {f g : Field}
    (hf : fields[i]? = some f) (hg : fields[i + 1]? = some g) {j k : ℕ} (hj : j ≤ f.width)
    (hk : k ≤ g.width) :
    ((pack fields).drop (width (fields.take i) + j)).take (f.width - j + k) =
      f.bits.drop j ++ g.bits.take k := by
  have hflen := f.length_bits
  have hglen := g.length_bits
  obtain ⟨hlt, hget⟩ := List.getElem?_eq_some_iff.mp hg
  have hnext : fields.drop (i + 1) = g :: fields.drop (i + 2) := by
    rw [List.drop_eq_getElem_cons hlt, hget]
  have hdrop : (f.bits.drop j).length = f.width - j := by
    rw [List.length_drop, hflen]
  rw [← List.drop_drop, drop_pack hf, hnext, pack_cons,
    List.drop_append_of_le_length (by omega), ← hdrop, List.take_length_add_append,
    List.take_append_of_le_length (by omega)]

end Layout
