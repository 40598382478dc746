import Gnuais.Demod
import Gnuais.Lib.Bits
import Gnuais.Lib.Buffer
import Mathlib.Tactic.Linarith

/-!
# Reading fields out of a frame

`protodec_henten` picks a bit field out of a frame that holds one bit a byte,
and the helpers around it turn fields into what the message decoders use: the
narrowing conversions of C, the sign extension of coordinates, and six-bit
text with its trailing blanks cut off.

`protodecHenten_eq` is the one fact later proofs use: a field inside the array
is read without fault. `hentenVal_bits` gives its value when the array holds
bits, and `henten_field` reads a field of a message whose bits the array
holds.
-/

namespace Gnuais

open Bits

variable {n : ℕ}

/-- `protodec_henten`: the bytes of the field, each shifted to its place. -/
def protodecHenten (frm size : ℕ) (frame : Vector UInt8 n) : Option ℕ :=
  (List.range size).foldlM
    (fun tmp i => do
      let b ← frame[frm + i]?
      return tmp ||| (b.toNat <<< (size - 1 - i))) 0

/-- The value `protodecHenten` computes, as a total function. -/
def hentenVal (frm size : ℕ) (frame : Vector UInt8 n) : ℕ :=
  (List.range size).foldl
    (fun tmp i => tmp ||| (((frame[frm + i]?).getD 0).toNat <<< (size - 1 - i))) 0

/-- A conversion to `unsigned char`. -/
def cUChar (x : ℕ) : ℕ := x % 256

/-- A conversion to `unsigned short`. -/
def cUShort (x : ℕ) : ℕ := x % 65536

/-- A conversion to `char`, signed. -/
def cChar (x : ℕ) : ℤ := (x : ℤ).bmod 256

/-- `if (((x >> top) & 1) == 1) x |= mask` on a 32-bit `int`. -/
def signExtend (top : ℕ) (mask : BitVec 32) (x : BitVec 32) : BitVec 32 :=
  if (x.sshiftRight top) &&& 1#32 = 1#32 then x ||| mask else x

/-- The longitude every position decoder computes from a 28-bit field. -/
def longitudeOf (field : ℕ) : ℤ :=
  (signExtend 27 0xF0000000#32 (BitVec.ofNat 32 field)).toInt

/-- The latitude every position decoder computes from a 27-bit field. -/
def latitudeOf (field : ℕ) : ℤ :=
  (signExtend 26 0xf8000000#32 (BitVec.ofNat 32 field)).toInt

/-- `(float) x / d` with the literal `d.0`. -/
def scaled (x : ℤ) (d : ℕ) : FloatExpr := .div (.ofInt x) (.lit d)

/-! ## Six-bit text

The two loops of the source, letter by letter and then back from the end over the blanks. -/

/-- The character `protodec_decode_sixbit_ascii` stores. -/
def protodecDecodeSixbitAscii (sixbit : ℕ) : UInt8 :=
  if 1 ≤ sixbit ∧ sixbit ≤ 31 then UInt8.ofNat (sixbit + 64)
  else if 32 ≤ sixbit ∧ sixbit ≤ 63 then UInt8.ofNat sixbit
  else 32

/-- The loop of `remove_trailing_spaces`, from index `i - 1` down. -/
def trimFrom : ℕ → List UInt8 → List UInt8
  | 0, s => s
  | i + 1, s => if s[i]? = some 32 ∨ s[i]? = some 0 then trimFrom i (s.set i 0) else s

/-- `remove_trailing_spaces(s, len)`: the terminator at `s[len]`, then the
blanks before it zeroed. -/
def removeTrailingSpaces (s : List UInt8) (len : ℕ) : List UInt8 :=
  trimFrom len (s.set len 0)

/-- The extraction loop of the text fields: `len` letters from bit `pos` on
into an array of `len + 1` characters, trimmed; the result is the C string
left there. -/
def sixbitText (pos len : ℕ) (frame : Vector UInt8 n) : Option (List UInt8) := do
  let letters ← (List.range len).mapM fun k => do
    let letter ← protodecHenten (pos + 6 * k) 6 frame
    return protodecDecodeSixbitAscii letter
  return (removeTrailingSpaces (letters ++ [0]) len).takeWhile (· ≠ 0)

/-! ## Coordinates

Longitude and latitude are numbers of 28 and 27 bits in two's complement, which the source
extends to an `int` by hand. -/

/-- Or-ing the bits above `top` to a field whose bit `top` is set takes it as a
number in two's complement. -/
theorem signExtend_toInt {top : ℕ} {mask : BitVec 32} (htop : top < 31)
    (hmask : mask.toNat = 2 ^ 32 - 2 ^ (top + 1)) {x : ℕ} (hx : x < 2 ^ (top + 1)) :
    (signExtend top mask (BitVec.ofNat 32 x)).toInt =
      if x < 2 ^ top then (x : ℤ) else x - 2 ^ (top + 1) := by
  have hpow : 2 ^ (top + 1) ≤ 2 ^ 31 := Nat.pow_le_pow_right (by omega) (by omega)
  have hdouble : 2 ^ (top + 1) = 2 * 2 ^ top := by rw [Nat.pow_succ, Nat.mul_comm]
  have hnat : (BitVec.ofNat 32 x).toNat = x := by
    rw [BitVec.toNat_ofNat, Nat.mod_eq_of_lt (by omega)]
  have hshift : (BitVec.ofNat 32 x).sshiftRight top = BitVec.ofNat 32 x >>> top := by
    refine BitVec.sshiftRight_eq_of_msb_false ?_
    rw [BitVec.msb_eq_decide, hnat, decide_eq_false_iff_not]
    omega
  have hbit : BitVec.ofNat 32 x >>> top &&& 1#32 = 1#32 ↔ ¬ x < 2 ^ top := by
    have hquot : x / 2 ^ top < 2 := Nat.div_lt_of_lt_mul (by omega)
    rw [← BitVec.toNat_inj, BitVec.toNat_and, BitVec.toNat_ushiftRight, hnat,
      Nat.shiftRight_eq_div_pow, show (1#32).toNat = 1 from rfl, Nat.and_one_is_mod,
      Nat.mod_eq_of_lt hquot]
    have hzero : x / 2 ^ top = 0 ↔ x < 2 ^ top := Nat.div_eq_zero_iff_lt (Nat.two_pow_pos _)
    generalize x / 2 ^ top = quotient at hquot hzero
    omega
  rw [signExtend, hshift]
  by_cases hlow : x < 2 ^ top
  · rw [if_neg fun h => hbit.mp h hlow, if_pos hlow, BitVec.toInt_eq_toNat_cond, hnat,
      if_pos (by omega)]
  · have hor : x ||| mask.toNat = x + (2 ^ 32 - 2 ^ (top + 1)) := by
      have hmul : 2 ^ 32 - 2 ^ (top + 1) = 2 ^ (top + 1) * (2 ^ (31 - top) - 1) := by
        rw [Nat.mul_sub, ← Nat.pow_add, Nat.mul_one, show top + 1 + (31 - top) = 32 by omega]
      rw [hmask, hmul, Nat.or_comm, ← Nat.two_pow_add_eq_or_of_lt hx, Nat.add_comm]
    rw [if_pos (hbit.mpr hlow), if_neg hlow, BitVec.toInt_eq_toNat_cond, BitVec.toNat_or, hnat,
      hor, if_neg (by omega), show (2 : ℤ) ^ (top + 1) = ((2 ^ (top + 1) : ℕ) : ℤ) by push_cast; rfl]
    omega

/-- The longitude is the field as a number of 28 bits in two's complement. -/
theorem longitudeOf_eq {field : ℕ} (h : field < 2 ^ 28) :
    longitudeOf field = if field < 2 ^ 27 then (field : ℤ) else field - 2 ^ 28 :=
  signExtend_toInt (by decide) rfl h

/-- The latitude is the field as a number of 27 bits in two's complement. -/
theorem latitudeOf_eq {field : ℕ} (h : field < 2 ^ 27) :
    latitudeOf field = if field < 2 ^ 26 then (field : ℤ) else field - 2 ^ 27 :=
  signExtend_toInt (by decide) rfl h

/-! ## Fields inside the array

Reading faults only outside the array, so behind a bound the readers are total functions,
and it is these that the other modules compute with. -/

/-- A field inside the array is read. -/
theorem protodecHenten_eq {frm size : ℕ} (frame : Vector UInt8 n) (h : frm + size ≤ n) :
    protodecHenten frm size frame = some (hentenVal frm size frame) := by
  refine Buffer.foldlM_some (fun tmp i hi => ?_) 0
  have hlt : frm + i < n := by
    have := List.mem_range.mp hi
    omega
  rw [Vector.getElem?_eq_getElem hlt]
  rfl

/-- The string `sixbitText` leaves, as a total function. -/
def sixbitVal (pos len : ℕ) (frame : Vector UInt8 n) : List UInt8 :=
  (removeTrailingSpaces
    ((List.range len).map (fun k => protodecDecodeSixbitAscii (hentenVal (pos + 6 * k) 6 frame))
      ++ [0]) len).takeWhile (· ≠ 0)

/-- A text field inside the array is read. -/
theorem sixbitText_eq {pos len : ℕ} (frame : Vector UInt8 n) (h : pos + 6 * len ≤ n) :
    sixbitText pos len frame = some (sixbitVal pos len frame) := by
  have hread : ((List.range len).mapM fun k => do
        let letter ← protodecHenten (pos + 6 * k) 6 frame
        return protodecDecodeSixbitAscii letter : Option (List UInt8)) =
      some ((List.range len).map fun k =>
        protodecDecodeSixbitAscii (hentenVal (pos + 6 * k) 6 frame)) := by
    refine Buffer.mapM_some fun k hk => ?_
    rw [List.mem_range] at hk
    rw [protodecHenten_eq frame (by omega)]
    rfl
  rw [sixbitText, hread]
  rfl

/-- What the text loops leave: at most `len` characters of the six-bit
alphabet. -/
def SixbitText (len : ℕ) (s : List UInt8) : Prop := s.length ≤ len ∧ ∀ c ∈ s, 32 ≤ c ∧ c ≤ 95

instance (len : ℕ) (s : List UInt8) : Decidable (SixbitText len s) :=
  @instDecidableAnd _ _ _ (List.decidableBAll (fun c => 32 ≤ c ∧ c ≤ 95) s)

/-- A letter is a character between the blank and the underscore. -/
theorem decodeSixbitAscii_range (sixbit : ℕ) :
    32 ≤ protodecDecodeSixbitAscii sixbit ∧ protodecDecodeSixbitAscii sixbit ≤ 95 := by
  have hsmall : ∀ k < 64, 32 ≤ protodecDecodeSixbitAscii k ∧ protodecDecodeSixbitAscii k ≤ 95 := by
    decide
  by_cases h : sixbit < 64
  · exact hsmall sixbit h
  · rw [protodecDecodeSixbitAscii, if_neg (by omega), if_neg (by omega)]
    decide

/-- Cutting off blanks puts nothing but terminators into a string. -/
theorem mem_trimFrom {c : UInt8} : ∀ {i : ℕ} {s : List UInt8}, c ∈ trimFrom i s → c = 0 ∨ c ∈ s := by
  intro i
  induction i with
  | zero => exact fun h => .inr h
  | succ i ih =>
    intro s h
    rw [trimFrom] at h
    split at h
    · rcases ih h with hzero | hmem
      · exact .inl hzero
      · exact (List.mem_or_eq_of_mem_set hmem).symm
    · exact .inr h

/-- From index `i` on nothing is changed. -/
theorem getElem?_trimFrom {j : ℕ} : ∀ {i : ℕ} {s : List UInt8}, i ≤ j → (trimFrom i s)[j]? = s[j]? := by
  intro i
  induction i with
  | zero => exact fun _ => rfl
  | succ i ih =>
    intro s h
    rw [trimFrom]
    split
    · rw [ih (by omega), List.getElem?_set_ne (by omega)]
    · rfl

/-- A terminator ends what is in front of it. -/
theorem length_cString_le {s : List UInt8} : ∀ {len : ℕ}, s[len]? = some 0 →
    (s.takeWhile (· ≠ 0)).length ≤ len := by
  induction s with
  | nil => exact fun _ => Nat.zero_le _
  | cons c s ih =>
    intro len h
    rw [List.takeWhile_cons]
    split
    · next hc =>
      cases len with
      | zero =>
        obtain rfl := Option.some.inj h
        exact absurd hc (by decide)
      | succ len => exact Nat.succ_le_succ (ih h)
    · exact Nat.zero_le _

/-- The string that is left is six-bit text. -/
theorem sixbitVal_text (pos len : ℕ) (frame : Vector UInt8 n) :
    SixbitText len (sixbitVal pos len frame) := by
  rw [sixbitVal, removeTrailingSpaces]
  constructor
  · apply length_cString_le
    rw [getElem?_trimFrom (Nat.le_refl len), List.getElem?_set_self]
    rw [List.length_append, List.length_map, List.length_range]
    exact Nat.lt_succ_self len
  · intro c hc
    have hzero : c ≠ 0 := by simpa using List.mem_takeWhile_imp hc
    rcases mem_trimFrom ((List.takeWhile_prefix _).subset hc) with h | hmem
    · exact absurd h hzero
    · rcases List.mem_or_eq_of_mem_set hmem with hmem | h
      · rcases List.mem_append.mp hmem with hmem | hmem
        · obtain ⟨k, -, rfl⟩ := List.mem_map.mp hmem
          exact decodeSixbitAscii_range _
        · exact absurd (List.mem_singleton.mp hmem) hzero
      · exact absurd h hzero

/-! ## The value of a field of bits

A frame holds bits as bytes, one each; once it is known which bits these are, a field is
the number its bits spell, highest first. -/

/-- The frame holds the bits `bs` from index `frm` on. -/
def HoldsBits (frame : Vector UInt8 n) (frm : ℕ) (bs : List Bool) : Prop :=
  ∀ i < bs.length, frame[frm + i]? = bs[i]?.map byte

/-- A buffer holds no more bits than it has elements. -/
theorem HoldsBits.length_le {n : ℕ} {frame : Vector UInt8 n} {p : List Bool}
    (h : HoldsBits frame 0 p) : p.length ≤ n := by
  by_contra hlt
  have hlast := h n (by omega)
  rw [Nat.zero_add, Vector.getElem?_eq_none (Nat.le_refl n)] at hlast
  cases hp : p[n]? with
  | none => exact hlt (List.getElem?_eq_none_iff.mp hp)
  | some b =>
    rw [hp] at hlast
    cases hlast

/-- Bits stored from some index on are held there. -/
theorem holdsBits_splice_at (frame : Vector UInt8 n) {start : ℕ} {p : List Bool}
    (hfit : start + p.length ≤ n) :
    HoldsBits (Buffer.splice frame start (p.map byte)) start p := by
  intro i hi
  rw [Buffer.getElem?_splice _ _ _ _ (by rwa [List.length_map]), List.length_map,
    if_pos (by omega), Nat.add_sub_cancel_left, List.getElem?_map]

/-- Bits stored from the front on are held there. -/
theorem holdsBits_splice (frame : Vector UInt8 n) {p : List Bool} (hfit : p.length ≤ n) :
    HoldsBits (Buffer.splice frame 0 (p.map byte)) 0 p :=
  holdsBits_splice_at frame (by rwa [Nat.zero_add])

/-- What is held behind some bits. -/
theorem HoldsBits.right {frame : Vector UInt8 n} {start : ℕ} {p q : List Bool}
    (h : HoldsBits frame start (p ++ q)) : HoldsBits frame (start + p.length) q := by
  intro i hi
  rw [Nat.add_assoc, h _ (by rw [List.length_append]; omega),
    List.getElem?_append_right (Nat.le_add_right _ _), Nat.add_sub_cancel_left]

/-- Or-ing the bits of a field to their places adds up to its value. The
induction is on the bits already placed. -/
theorem foldl_henten {frame : Vector UInt8 n} {frm : ℕ} {bs : List Bool}
    (h : HoldsBits frame frm bs) (k : ℕ) (hk : k ≤ bs.length) :
    (List.range k).foldl (fun tmp i =>
        tmp ||| (((frame[frm + i]?).getD 0).toNat <<< (bs.length - 1 - i))) 0 =
      ofBits (bs.take k) <<< (bs.length - k) := by
  induction k with
  | zero => simp
  | succ k ih =>
    have hb : bs[k]? = some bs[k] := List.getElem?_eq_getElem (by omega)
    have hlt : bs[k].toNat * 2 ^ (bs.length - (k + 1)) < 2 ^ (bs.length - (k + 1) + 1) := by
      have hpos := Nat.two_pow_pos (bs.length - (k + 1))
      have hbit := Bool.toNat_le bs[k]
      rw [Nat.pow_succ]
      nlinarith
    have hor := Nat.two_pow_add_eq_or_of_lt hlt (ofBits (bs.take k))
    rw [List.range_succ, List.foldl_append, ih (by omega), List.foldl_cons, List.foldl_nil,
      h k (by omega), List.take_add_one, hb, Option.toList_some, ofBits_concat, Option.map_some,
      Option.getD_some, toNat_byte, show bs.length - k = bs.length - (k + 1) + 1 by omega,
      show bs.length - 1 - k = bs.length - (k + 1) by omega, Nat.shiftLeft_eq, Nat.shiftLeft_eq,
      Nat.shiftLeft_eq, mul_comm (ofBits (bs.take k)), ← hor, Nat.pow_succ]
    ring

/-- A field of bits has the value of its bits. -/
theorem hentenVal_bits {frame : Vector UInt8 n} {frm : ℕ} {bs : List Bool}
    (h : HoldsBits frame frm bs) : hentenVal frm bs.length frame = ofBits bs := by
  have hall := foldl_henten h bs.length (le_refl _)
  rwa [List.take_length, Nat.sub_self, Nat.shiftLeft_zero] at hall

/-! ## A field of a message

The layouts of `Layout.lean` say which bits a message has, and this says what a decoder
reads of them. -/

/-- A field of the message's bits. -/
def field (p : List Bool) (pos len : ℕ) : ℕ := ofBits ((p.drop pos).take len)

/-- A field has the length that was asked for. -/
theorem length_field {p : List Bool} {pos len : ℕ} (h : pos + len ≤ p.length) :
    ((p.drop pos).take len).length = len := by
  rw [List.length_take, List.length_drop]
  omega

/-- A field of `len` bits is below `2 ^ len`. -/
theorem field_lt {p : List Bool} {pos len : ℕ} (h : pos + len ≤ p.length) :
    field p pos len < 2 ^ len := by
  have hlt := ofBits_lt ((p.drop pos).take len)
  rwa [length_field h] at hlt

/-- A field of at most sixteen bits survives the conversion to `unsigned short`. -/
theorem cUShort_field {p : List Bool} {pos len : ℕ} (h : pos + len ≤ p.length)
    (hshort : len ≤ 16) : cUShort (field p pos len) = field p pos len := by
  have hpow : 2 ^ len ≤ 2 ^ 16 := Nat.pow_le_pow_right (by decide) hshort
  exact Nat.mod_eq_of_lt (lt_of_lt_of_le (field_lt h) hpow)

/-- The first bit of a field is its highest one. -/
theorem field_top {p : List Bool} {pos len : ℕ} (h : pos + (len + 1) ≤ p.length) :
    2 ^ len ≤ field p pos (len + 1) ↔ p[pos]? = some true := by
  have hpos : pos < p.length := by omega
  have hcons : (p.drop pos).take (len + 1) = p[pos] :: (p.drop (pos + 1)).take len := by
    rw [List.drop_eq_getElem_cons hpos, List.take_succ_cons]
  have hlt := field_lt (show pos + 1 + len ≤ p.length by omega)
  rw [field] at hlt
  rw [field, hcons, ofBits_cons, length_field (by omega), List.getElem?_eq_getElem hpos]
  cases p[pos] with
  | true => simp
  | false => simpa using hlt

/-- Of the bits an array holds it holds every stretch. -/
theorem HoldsBits.stretch {frame : Vector UInt8 n} {start : ℕ} {p : List Bool}
    (h : HoldsBits frame start p) {pos len : ℕ} (hfit : pos + len ≤ p.length) :
    HoldsBits frame (start + pos) ((p.drop pos).take len) := by
  intro i hi
  rw [length_field hfit] at hi
  rw [Nat.add_assoc, h (pos + i) (by omega), List.getElem?_take_of_lt hi, List.getElem?_drop]

/-- The bits an array holds from some index on end inside it. -/
theorem HoldsBits.add_length_le {frame : Vector UInt8 n} {start : ℕ} {p : List Bool}
    (h : HoldsBits frame start p) (hne : p ≠ []) : start + p.length ≤ n := by
  have hpos : 0 < p.length := List.length_pos_iff.mpr hne
  have hlast := h (p.length - 1) (by omega)
  rw [List.getElem?_eq_getElem (by omega), Option.map_some] at hlast
  obtain ⟨hlt, -⟩ := Vector.getElem?_eq_some_iff.mp hlast
  omega

/-- A field of the bits an array holds is read. -/
theorem HoldsBits.henten {frame : Vector UInt8 n} {start : ℕ} {p : List Bool}
    (h : HoldsBits frame start p) {pos len : ℕ} (hfit : pos + len ≤ p.length) :
    protodecHenten (start + pos) len frame = some (field p pos len) := by
  by_cases hlen : len = 0
  · subst hlen
    rw [field, List.take_zero]
    rfl
  · have hend := h.add_length_le (List.ne_nil_of_length_pos (by omega))
    have hval := hentenVal_bits (h.stretch hfit)
    rw [length_field hfit] at hval
    rw [protodecHenten_eq frame (by omega), hval]
    rfl

/-- Both decoders read a field of the bits their array holds. -/
theorem henten_field {n : ℕ} {frame : Vector UInt8 n} {p : List Bool}
    (hholds : HoldsBits frame 0 p) {pos len : ℕ} (h : pos + len ≤ p.length) :
    protodecHenten pos len frame = some (field p pos len) := by
  have hread := hholds.henten h
  rwa [Nat.zero_add] at hread

/-- The value of a field is that of its bits. -/
theorem hentenVal_field {n : ℕ} {frame : Vector UInt8 n} {p : List Bool}
    (hholds : HoldsBits frame 0 p) {pos len : ℕ} (h : pos + len ≤ p.length) :
    hentenVal pos len frame = field p pos len := by
  have hread := henten_field hholds h
  rw [protodecHenten_eq frame (h.trans hholds.length_le)] at hread
  exact Option.some.inj hread

end Gnuais
