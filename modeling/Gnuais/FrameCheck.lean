import Gnuais.Decode

/-!
# What the frame check computes

The octet-wise `protodec_sdlc_crc` is the bit-serial register of `Crc` over the
octets in transmission order (`protodecSdlcCrc_eq`), so its magic constant is
the residue of the polynomial and the check accepts exactly the octet strings
that end in their own check sequence (`residue_check_iff`).

For `protodec_calculate_crc` on a buffer that holds bits, `calculateCrc_eq`
gives the decision and the new `rbuffer` as functions of those bits.
-/

namespace Gnuais

open Buffer Bits

/-- The polynomial of the frame check, reflected. -/
abbrev crcPoly : BitVec 16 := 0x8408#16

/-- The number whose binary digits are a leading one and then `bits`, read from the last
to the first: what `c` holds while `bits` are still to come. The code knows by the leading
one when all bits of an octet have gone through. -/
def sentinel (bits : List Bool) : ℕ := bits.foldr (fun b acc => 2 * acc + b.toNat) 1

/-- The sentinel in front of one bit more. -/
theorem sentinel_eq (bits : List Bool) :
    sentinel bits = 2 ^ bits.length + ofBits bits.reverse := by
  induction bits with
  | nil => rfl
  | cons b bits ih =>
    have hcons : sentinel (b :: bits) = 2 * sentinel bits + b.toNat := rfl
    rw [hcons, ih, List.reverse_cons, ofBits_concat, List.length_cons, Nat.pow_succ]
    omega

/-- The sentinel of an octet is the octet, with a one in front. -/
theorem sentinel_octetLE (o : UInt8) : sentinel (octetLE o) = 256 + o.toNat := by
  rw [sentinel_eq, length_octetLE, octetLE, List.reverse_reverse, octetBE,
    ofBits_toBits (UInt8.toNat_lt o)]
  rfl

/-- The feedback test of the source is the comparison of the register's low
bit with the bit that comes in. -/
theorem feedback_iff (crc c : BitVec 16) :
    (crc ^^^ c) &&& 1#16 ≠ 0#16 ↔ (crc.getLsbD 0 ^^ c.getLsbD 0) = true := by
  have hbit : ((crc ^^^ c) &&& 1#16).toNat = (crc.getLsbD 0 ^^ c.getLsbD 0).toNat := by
    rw [← BitVec.getLsbD_xor, BitVec.toNat_and, show (1#16).toNat = 1 from rfl, Nat.and_one_is_mod,
      BitVec.getLsbD, Nat.testBit_zero]
    rcases Nat.mod_two_eq_zero_or_one (crc ^^^ c).toNat with h | h <;> rw [h] <;> rfl
  rw [Ne, ← BitVec.toNat_inj, hbit, show (0#16).toNat = 0 from rfl]
  cases crc.getLsbD 0 ^^ c.getLsbD 0 <;> simp

/-- The inner loop feeds the register the bits below the sentinel. -/
theorem sdlcLoop_eq (bits : List Bool) :
    ∀ (left : ℕ) (crc : BitVec 16), bits.length < left → bits.length ≤ 14 →
      sdlcLoop left (BitVec.ofNat 16 (sentinel bits)) crc = Crc.run crcPoly crc bits := by
  induction bits with
  | nil =>
    intro left crc hleft _
    obtain ⟨left, rfl⟩ := Nat.exists_eq_succ_of_ne_zero (Nat.ne_of_gt hleft)
    rfl
  | cons b bits ih =>
    intro left crc hleft hlen
    obtain ⟨left, rfl⟩ := Nat.exists_eq_succ_of_ne_zero (Nat.ne_of_gt (Nat.zero_lt_of_lt hleft))
    rw [List.length_cons] at hleft hlen
    -- the sentinel is an even number and the bit that comes next
    have hval : sentinel (b :: bits) = 2 * sentinel bits + b.toNat := rfl
    have hpos : 1 ≤ sentinel bits := by
      have := Nat.two_pow_pos bits.length
      rw [sentinel_eq]
      omega
    have hlt : sentinel (b :: bits) < 2 ^ 16 := by
      have hbits := ofBits_lt (b :: bits).reverse
      have hpow : 2 ^ (bits.length + 1) ≤ 2 ^ 15 := Nat.pow_le_pow_right (by omega) (by omega)
      rw [List.length_reverse, List.length_cons] at hbits
      rw [sentinel_eq, List.length_cons]
      omega
    have hb := Bool.toNat_le b
    have hnat : (BitVec.ofNat 16 (sentinel (b :: bits))).toNat = 2 * sentinel bits + b.toNat := by
      rw [BitVec.toNat_ofNat, Nat.mod_eq_of_lt hlt, hval]
    have hgt : BitVec.ofNat 16 (sentinel (b :: bits)) > 1#16 := by
      rw [gt_iff_lt, BitVec.lt_def, hnat]
      change 1 < _
      omega
    have hshift : BitVec.ofNat 16 (sentinel (b :: bits)) >>> 1 =
        BitVec.ofNat 16 (sentinel bits) := by
      apply BitVec.eq_of_toNat_eq
      rw [BitVec.toNat_ushiftRight, hnat, BitVec.toNat_ofNat, Nat.mod_eq_of_lt (by omega),
        Nat.shiftRight_eq_div_pow]
      omega
    have hlow : (BitVec.ofNat 16 (sentinel (b :: bits))).getLsbD 0 = b := by
      rw [BitVec.getLsbD, hnat, Nat.testBit_zero, Nat.mul_add_mod]
      cases b <;> rfl
    rw [sdlcLoop, if_pos hgt, hshift, ih _ _ (by omega) (by omega), Crc.run_cons, Crc.step]
    congr 1
    -- the polynomial is added in the same case on both sides
    by_cases hfeed : (crc ^^^ BitVec.ofNat 16 (sentinel (b :: bits))) &&& 1#16 ≠ 0#16
    · have := (feedback_iff _ _).mp hfeed
      rw [hlow] at this
      rw [if_pos hfeed, if_pos this]
    · have hnot := fun h => hfeed ((feedback_iff _ _).mpr h)
      rw [hlow] at hnot
      rw [if_neg hfeed, if_neg hnot]

/-- `protodec_sdlc_crc` is the bit-serial register over the octets, each least
significant bit first. -/
theorem protodecSdlcCrc_eq (data : List UInt8) :
    protodecSdlcCrc data = ~~~ Crc.run crcPoly 0xffff#16 (data.flatMap octetLE) := by
  have hfold : ∀ (data : List UInt8) (crc : BitVec 16),
      data.foldl (fun crc o => sdlcLoop 16 (0x100#16 + o.toBitVec.setWidth 16) crc) crc =
        Crc.run crcPoly crc (data.flatMap octetLE) := by
    intro data
    induction data with
    | nil => intro crc; rfl
    | cons o data ih =>
      intro crc
      have hc : 0x100#16 + o.toBitVec.setWidth 16 = BitVec.ofNat 16 (sentinel (octetLE o)) := by
        have ho := UInt8.toNat_lt o
        apply BitVec.eq_of_toNat_eq
        rw [sentinel_octetLE, BitVec.toNat_add, BitVec.toNat_setWidth, BitVec.toNat_ofNat,
          BitVec.toNat_ofNat, UInt8.toNat_toBitVec]
        omega
      rw [List.foldl_cons, ih, hc, sdlcLoop_eq _ _ _ (by rw [length_octetLE]; omega)
        (by rw [length_octetLE]; omega), List.flatMap_cons, Crc.run_append]
  rw [protodecSdlcCrc, hfold]

/-! ## The residue

A register that has gone through the data and its own check sequence always holds the same
number. The code compares with this number and never looks at the check sequence by
itself. -/

/-- The frame check sequence in the order it is sent, low octet first. -/
def fcsOctets (crc : BitVec 16) : List UInt8 :=
  [UInt8.ofNat (crc.toNat % 256), UInt8.ofNat (crc.toNat / 256)]

/-- The bits of the two octets in the order in which they are sent. -/
theorem bits_fcsOctets (crc : BitVec 16) : (fcsOctets crc).flatMap octetLE = Crc.bits crc := by
  have hlt := crc.isLt
  have hoct : ∀ (v i : ℕ), v < 256 → (octetLE (UInt8.ofNat v))[i]? =
      if i < 8 then some (v.testBit i) else none := by
    intro v i hv
    rw [octetLE, octetBE, UInt8.toNat_ofNat', Nat.mod_eq_of_lt hv]
    by_cases hi : i < 8
    · rw [List.getElem?_reverse (by rw [length_toBits]; exact hi), length_toBits,
        getElem?_toBits, if_pos (by omega), if_pos hi]
      congr 2
      omega
    · rw [if_neg hi, List.getElem?_eq_none]
      rw [List.length_reverse, length_toBits]
      omega
  apply List.ext_getElem?
  intro i
  rw [Crc.getElem?_bits, fcsOctets, List.flatMap_cons, List.flatMap_cons, List.flatMap_nil,
    List.append_nil]
  by_cases hi : i < 8
  · rw [List.getElem?_append_left (by rw [length_octetLE]; exact hi), hoct _ _ (by omega),
      if_pos hi, if_pos (by omega), BitVec.getLsbD, show 256 = 2 ^ 8 by rfl,
      Nat.testBit_mod_two_pow, decide_eq_true hi, Bool.true_and]
  · rw [List.getElem?_append_right (by rw [length_octetLE]; omega), length_octetLE,
      hoct _ _ (by omega)]
    by_cases hi' : i < 16
    · rw [if_pos (by omega), if_pos hi', BitVec.getLsbD, show 256 = 2 ^ 8 by rfl,
        Nat.testBit_div_two_pow, show i - 8 + 8 = i by omega]
    · rw [if_neg (by omega), if_neg hi']

/-- The octets of a check sequence are determined by its bits. -/
theorem octetLE_injective {o o' : UInt8} (h : octetLE o = octetLE o') : o = o' := by
  rw [← packLE_octetLE o, h, packLE_octetLE]

/-- A string of octets followed by two more has the residue exactly when the
two are its check sequence. -/
theorem residue_check_iff (data : List UInt8) (lo hi : UInt8) :
    protodecSdlcCrc (data ++ [lo, hi]) = 0x0f47#16 ↔
      [lo, hi] = fcsOctets (protodecSdlcCrc data) := by
  have hres : Crc.residue crcPoly = 0xf0b8#16 := by decide +kernel
  have hlen : ([lo, hi].flatMap octetLE).length = 16 := by
    simp [List.flatMap_cons]
  have hiff := Crc.residue_iff (show crcPoly.getLsbD (16 - 1) = true by decide)
    (Crc.run crcPoly 0xffff#16 (data.flatMap octetLE)) hlen
  rw [← Crc.run_append, ← List.flatMap_append, hres, ← protodecSdlcCrc_eq] at hiff
  have hnot : protodecSdlcCrc (data ++ [lo, hi]) = 0x0f47#16 ↔
      Crc.run crcPoly 0xffff#16 ((data ++ [lo, hi]).flatMap octetLE) = 0xf0b8#16 := by
    rw [protodecSdlcCrc_eq, show 0x0f47#16 = ~~~ 0xf0b8#16 by rfl, BitVec.not_inj]
  rw [hnot, hiff, ← bits_fcsOctets]
  constructor
  · intro h
    rw [fcsOctets] at h ⊢
    simp only [List.flatMap_cons, List.flatMap_nil, List.append_nil] at h
    obtain ⟨hlo, hhi⟩ := List.append_inj h (by rw [length_octetLE, length_octetLE])
    rw [octetLE_injective hlo, octetLE_injective hhi]
  · intro h
    rw [h]

/-! ## Octets out of the bit buffer

The buffer has one bit a byte, in the order in which they came. The code packs eight of
them into an octet, the first one lowest. -/

/-- The first `k` octets of a bit sequence in transmission order. -/
def octetsOf (p : List Bool) (k : ℕ) : List UInt8 :=
  (List.range k).map fun j => packLE ((p.drop (8 * j)).take 8)

/-- There are `k` of them. -/
@[simp] theorem length_octetsOf (p : List Bool) (k : ℕ) : (octetsOf p k).length = k := by
  rw [octetsOf, List.length_map, List.length_range]

/-- Two octets more. -/
theorem octetsOf_add_two (p : List Bool) (k : ℕ) :
    octetsOf p (k + 2) = octetsOf p k ++ [packLE ((p.drop (8 * k)).take 8),
      packLE ((p.drop (8 * (k + 1))).take 8)] := by
  simp [octetsOf, List.range_succ]

/-- The octets carry the bits they were packed from. -/
theorem octetsOf_bits (p : List Bool) (k : ℕ) (h : 8 * k ≤ p.length) :
    (octetsOf p k).flatMap octetLE = p.take (8 * k) := by
  induction k with
  | zero => rfl
  | succ k ih =>
    rw [octetsOf, List.range_succ, List.map_append, List.flatMap_append, ← octetsOf,
      ih (by omega), List.map_singleton, List.flatMap_singleton,
      octetLE_packLE (by rw [List.length_take, List.length_drop]; omega),
      show 8 * (k + 1) = 8 * k + 8 by omega, List.take_add]

/-- Eight bits an octet. -/
theorem length_flatMap_octetLE (data : List UInt8) :
    (data.flatMap octetLE).length = 8 * data.length := by
  rw [List.length_flatMap]
  simp [mul_comm]

/-- Octets sent are the octets packed. -/
theorem octetsOf_flatMap (data : List UInt8) (rest : List Bool) :
    octetsOf (data.flatMap octetLE ++ rest) data.length = data := by
  apply List.ext_getElem (length_octetsOf _ _)
  intro j hj hj'
  have hbits : ((data.flatMap octetLE ++ rest).drop (8 * j)).take 8 = octetLE data[j] := by
    have hsplit : data = data.take j ++ data[j] :: data.drop (j + 1) := by
      rw [List.getElem_cons_drop, List.take_append_drop]
    have hpre : ((data.take j).flatMap octetLE).length = 8 * j := by
      rw [List.length_flatMap]
      simp [mul_comm, Nat.min_eq_left (Nat.le_of_lt hj')]
    conv_lhs => rw [hsplit]
    rw [List.flatMap_append, List.flatMap_cons, List.append_assoc, ← hpre, List.drop_left,
      List.append_assoc, ← length_octetLE data[j], List.take_left]
  simp only [octetsOf, List.getElem_map, List.getElem_range, hbits, packLE_octetLE]

/-- A list of eight bits, element by element. -/
theorem eight_bits {bs : List Bool} (h : bs.length = 8) :
    ∃ b₀ b₁ b₂ b₃ b₄ b₅ b₆ b₇, bs = [b₀, b₁, b₂, b₃, b₄, b₅, b₆, b₇] :=
  match bs, h with
  | [b₀, b₁, b₂, b₃, b₄, b₅, b₆, b₇], _ => ⟨b₀, b₁, b₂, b₃, b₄, b₅, b₆, b₇, rfl⟩

/-- Or-ing eight bits to their places packs them. -/
theorem orBits_eq (b₀ b₁ b₂ b₃ b₄ b₅ b₆ b₇ : Bool) :
    ((0 : UInt8) ||| byte b₀ <<< 0 ||| byte b₁ <<< 1 ||| byte b₂ <<< 2 ||| byte b₃ <<< 3 ||| byte b₄ <<< 4
      ||| byte b₅ <<< 5 ||| byte b₆ <<< 6 ||| byte b₇ <<< 7) =
      packLE [b₀, b₁, b₂, b₃, b₄, b₅, b₆, b₇] := by
  revert b₀ b₁ b₂ b₃ b₄ b₅ b₆ b₇
  decide +kernel

/-- Eight bits of the buffer as an octet. -/
theorem packOctet_eq {buffer : Frame} {p : List Bool} (h : HoldsBits buffer 0 p) {j : ℕ}
    (hj : 8 * j + 8 ≤ p.length) :
    packOctet buffer j = some (packLE ((p.drop (8 * j)).take 8)) := by
  obtain ⟨b₀, b₁, b₂, b₃, b₄, b₅, b₆, b₇, hbits⟩ : ∃ b₀ b₁ b₂ b₃ b₄ b₅ b₆ b₇,
      (p.drop (8 * j)).take 8 = [b₀, b₁, b₂, b₃, b₄, b₅, b₆, b₇] :=
    eight_bits (by rw [List.length_take, List.length_drop]; omega)
  have hread : ∀ i < 8, buffer[i + 8 * j]? = ([b₀, b₁, b₂, b₃, b₄, b₅, b₆, b₇][i]?).map byte := by
    intro i hi
    have := h (i + 8 * j) (by omega)
    rw [Nat.zero_add] at this
    rw [this, ← hbits, List.getElem?_take, if_pos hi, List.getElem?_drop, Nat.add_comm]
  have hrange : List.range 8 = [0, 1, 2, 3, 4, 5, 6, 7] := rfl
  rw [hbits, packOctet, hrange]
  simp only [List.foldlM_cons, List.foldlM_nil, hread 0 (by omega), hread 1 (by omega),
    hread 2 (by omega), hread 3 (by omega), hread 4 (by omega), hread 5 (by omega),
    hread 6 (by omega), hread 7 (by omega)]
  exact congrArg some (orBits_eq b₀ b₁ b₂ b₃ b₄ b₅ b₆ b₇)

/-! ## The new `rbuffer`

Behind the check the bits of every octet are turned around, as the fields of a message are
sent with their first bit highest. -/

/-- The `rbuffer` that holds the given octets, most significant bits first,
and zeros behind them. -/
def rbufferOf (octets : List UInt8) : Frame :=
  splice (Vector.replicate demodBufferLen 0) 0 ((octets.flatMap octetBE).map byte)

/-- The bit that the copy loop takes. -/
theorem shifted_bit (b₀ b₁ b₂ b₃ b₄ b₅ b₆ b₇ : Bool) : ∀ i < 8,
    (packLE [b₀, b₁, b₂, b₃, b₄, b₅, b₆, b₇] >>> UInt8.ofNat (7 - i)) &&& 1 =
      byte ([b₇, b₆, b₅, b₄, b₃, b₂, b₁, b₀][i]?.getD false) := by
  revert b₀ b₁ b₂ b₃ b₄ b₅ b₆ b₇
  decide +kernel

/-- One octet through the copy loop. -/
theorem storeBits_octet (buf : List UInt8) (j : ℕ) (rest : List (ℕ × ℕ)) (r : Frame) {o : UInt8}
    (ho : buf[j]? = some o) (hj : 8 * j + 8 ≤ demodBufferLen) :
    storeBits buf (((List.range 8).map fun i => (j, i)) ++ rest) r =
      storeBits buf rest (splice r (8 * j) ((octetBE o).map byte)) := by
  have hsize : demodBufferLen = 450 := rfl
  obtain ⟨b₀, b₁, b₂, b₃, b₄, b₅, b₆, b₇, hbits⟩ := eight_bits (length_octetLE o)
  have hbe : octetBE o = [b₇, b₆, b₅, b₄, b₃, b₂, b₁, b₀] := by
    rw [← List.reverse_reverse (octetBE o), ← octetLE, hbits]
    rfl
  have hbit := shifted_bit b₀ b₁ b₂ b₃ b₄ b₅ b₆ b₇
  rw [← hbits, packLE_octetLE] at hbit
  have hstep : ∀ i < 8, ∀ (is : List (ℕ × ℕ)) (r : Frame), storeBits buf ((j, i) :: is) r =
      storeBits buf is (r.setIfInBounds (8 * j + i)
        (byte ([b₇, b₆, b₅, b₄, b₃, b₂, b₁, b₀][i]?.getD false))) := by
    intro i hi is r
    rw [storeBits, if_neg (by omega), ho, Option.bind_eq_bind, Option.bind_some,
      wr_eq _ _ (by omega), Option.bind_eq_bind, Option.bind_some, hbit i hi, mul_comm]
  have hrange : ((List.range 8).map fun i => (j, i)) =
    [(j, 0), (j, 1), (j, 2), (j, 3), (j, 4), (j, 5), (j, 6), (j, 7)] := rfl
  rw [hrange, hbe]
  simp only [List.cons_append, List.nil_append]
  rw [hstep 0 (by omega), hstep 1 (by omega), hstep 2 (by omega), hstep 3 (by omega),
    hstep 4 (by omega), hstep 5 (by omega), hstep 6 (by omega), hstep 7 (by omega)]
  rfl

/-- The copy loop over a stretch of octets. -/
theorem storeBits_octets (os : List UInt8) : ∀ (pre post : List UInt8) (r : Frame),
    8 * (pre.length + os.length) ≤ demodBufferLen →
    storeBits (pre ++ os ++ post)
        ((List.range' pre.length os.length).flatMap fun j => (List.range 8).map fun i => (j, i)) r =
      some (true, splice r (8 * pre.length) ((os.flatMap octetBE).map byte)) := by
  induction os with
  | nil => intro pre post r _; rfl
  | cons o os ih =>
    intro pre post r h
    rw [List.length_cons] at h
    have ho : (pre ++ o :: os ++ post)[pre.length]? = some o := by simp
    have hnext := ih (pre ++ [o]) post (splice r (8 * pre.length) ((octetBE o).map byte))
      (by rw [List.length_append, List.length_singleton]; omega)
    rw [List.length_append, List.length_singleton, List.append_assoc pre] at hnext
    rw [List.length_cons, List.range'_succ, List.flatMap_cons,
      storeBits_octet _ _ _ _ ho (by omega)]
    refine hnext.trans ?_
    rw [List.flatMap_cons, List.map_append, splice_append, List.length_map, length_octetBE]
    rfl

/-! ## The decision and the new state

The function returns the decision, and leaves `rbuffer` even if the check fails. -/

/-- Whether the octets of a bit sequence pass the frame check, for a message
of `lengthBits` bits. -/
def checkPasses (p : List Bool) (lengthBits : ℕ) : Bool :=
  protodecSdlcCrc (octetsOf p (lengthBits / 8 + 2)) = 0x0f47#16

/-- `protodec_calculate_crc` on a buffer that holds bits. -/
theorem calculateCrc_eq {d : DemodState} {p : List Bool} (h : HoldsBits d.buffer 0 p)
    {lengthBits : ℕ} (hpos : 0 < lengthBits) (hlen : 8 * (lengthBits / 8 + 2) ≤ p.length)
    (hfit : lengthBits ≤ demodBufferLen) :
    protodecCalculateCrc lengthBits d =
      some (checkPasses p lengthBits,
        { d with rbuffer := rbufferOf (octetsOf p (lengthBits / 8)) }, []) := by
  have hbuf : (List.range (lengthBits / 8 + 2)).mapM (packOctet d.buffer) =
      some (octetsOf p (lengthBits / 8 + 2)) :=
    mapM_some fun j hj => packOctet_eq h (by rw [List.mem_range] at hj; omega)
  have hsplit := octetsOf_add_two p (lengthBits / 8)
  have hstore := storeBits_octets (octetsOf p (lengthBits / 8)) []
    [packLE ((p.drop (8 * (lengthBits / 8))).take 8),
      packLE ((p.drop (8 * (lengthBits / 8 + 1))).take 8)]
    (Vector.replicate demodBufferLen 0)
    (by rw [length_octetsOf, List.length_nil]; omega)
  rw [List.nil_append, ← hsplit, length_octetsOf, List.length_nil, ← List.range_eq_range'] at hstore
  rw [protodecCalculateCrc, if_neg (by omega), Int.toNat_natCast]
  simp only [Option.bind_eq_bind, hbuf, Option.bind_some, bitIndices, hstore, if_true]
  rfl

end Gnuais
