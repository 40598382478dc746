import Gnuais.FrameCheck

/-!
# What the frame check detects

The check is right exactly for the octets that end in their own check sequence
(`calculateCrc_residue`), although nothing in it compares the two. So a frame with
errors passes only if the errors drive the zero register back to zero, which
no burst of 16 bits does and no odd number of errors (`detects_errors`).
-/

namespace Gnuais

open Buffer Bits

/-! ## The residue as a comparison

That the register ends with the magic number says the same as that the last two octets are
the check sequence of those before them. -/

/-- Two octets are those of a check sequence when they spell its number, low
octet first. -/
theorem fcsOctets_iff (lo hi : UInt8) (crc : BitVec 16) :
    [lo, hi] = fcsOctets crc ↔ lo.toNat + 256 * hi.toNat = crc.toNat := by
  have hlo := UInt8.toNat_lt lo
  have hhi := UInt8.toNat_lt hi
  have hcrc := crc.isLt
  rw [fcsOctets, List.cons.injEq, List.cons.injEq, ← UInt8.toNat_inj, ← UInt8.toNat_inj,
    UInt8.toNat_ofNat', UInt8.toNat_ofNat']
  constructor
  · rintro ⟨h₁, h₂, -⟩
    omega
  · intro h
    exact ⟨by omega, by omega, rfl⟩

/-- The array bit by bit. -/
theorem getElem?_rbufferOf {octets : List UInt8} (hfit : octets.length ≤ 56) (k : ℕ) :
    (rbufferOf octets)[k]? =
      if k < 8 * octets.length then ((octets.flatMap octetBE).map byte)[k]?
      else (Vector.replicate demodBufferLen (0 : UInt8))[k]? := by
  have hlen : ((octets.flatMap octetBE).map byte).length = 8 * octets.length := by
    rw [List.length_map, length_flatMap_blocks length_octetBE]
  have hsize : demodBufferLen = 450 := rfl
  rw [rbufferOf, getElem?_splice _ _ _ _ (by omega), hlen, Nat.sub_zero]
  simp only [Nat.zero_le, true_and, Nat.zero_add]

/-- The new `rbuffer` has the bits of the octets, most significant bit first. -/
theorem rbufferOf_octet {octets : List UInt8} (hfit : octets.length ≤ 56) {j : ℕ} {o : UInt8}
    (ho : octets[j]? = some o) {i : ℕ} (hi : i < 8) :
    (rbufferOf octets)[8 * j + i]? = some (byte (o.toNat.testBit (7 - i))) := by
  have hj : j < octets.length := (List.getElem?_eq_some_iff.mp ho).1
  rw [getElem?_rbufferOf hfit, if_pos (by omega), List.getElem?_map,
    getElem?_flatMap_blocks length_octetBE (by omega), show (8 * j + i) / 8 = j by omega,
    show (8 * j + i) % 8 = i by omega, ho, Option.bind_some, octetBE, getElem?_toBits, if_pos hi]
  rfl

/-- Behind them it is zero. -/
theorem rbufferOf_zero {octets : List UInt8} (hfit : octets.length ≤ 56) {k : ℕ}
    (hk : 8 * octets.length ≤ k) (hlt : k < demodBufferLen) : (rbufferOf octets)[k]? = some 0 := by
  rw [getElem?_rbufferOf hfit, if_neg (by omega), Vector.getElem?_replicate, if_pos hlt]

/-- The frame check is a comparison with the check sequence of the octets before it, and
it leaves those octets in `rbuffer`, each most significant bit first, and zeros behind
them. For a frame without data the code decides before it looks at the octets, so there
must be one at least. -/
theorem calculateCrc_residue (data : List UInt8) (lo hi : UInt8) :
    (protodecSdlcCrc (data ++ [lo, hi]) = 0x0f47#16 ↔
      lo.toNat + 256 * hi.toNat = (protodecSdlcCrc data).toNat) ∧
    ∀ d : DemodState, data ≠ [] → HoldsBits d.buffer 0 ((data ++ [lo, hi]).flatMap octetLE) →
      ∃ rbuffer, protodecCalculateCrc (8 * data.length : ℕ) d =
          some (decide (lo.toNat + 256 * hi.toNat = (protodecSdlcCrc data).toNat),
            { d with rbuffer := rbuffer }, []) ∧
        (∀ j o, data[j]? = some o → ∀ i < 8,
          rbuffer[8 * j + i]? = some (byte (o.toNat.testBit (7 - i)))) ∧
        ∀ k, 8 * data.length ≤ k → k < demodBufferLen → rbuffer[k]? = some 0 := by
  have hresidue : protodecSdlcCrc (data ++ [lo, hi]) = 0x0f47#16 ↔
      lo.toNat + 256 * hi.toNat = (protodecSdlcCrc data).toNat := by
    rw [residue_check_iff, fcsOctets_iff]
  refine ⟨hresidue, fun d hdata hholds => ?_⟩
  have hlen : ((data ++ [lo, hi]).flatMap octetLE).length = 8 * (data.length + 2) := by
    rw [length_flatMap_octetLE, List.length_append]
    rfl
  have hfit : 8 * (data.length + 2) ≤ 450 := hlen ▸ hholds.length_le
  have hpos : 0 < data.length := List.length_pos_iff.mpr hdata
  have hdiv : 8 * data.length / 8 = data.length := Nat.mul_div_cancel_left _ (by omega)
  have hwhole : octetsOf ((data ++ [lo, hi]).flatMap octetLE) (data.length + 2) =
      data ++ [lo, hi] := by
    have hflat := octetsOf_flatMap (data ++ [lo, hi]) []
    rwa [List.append_nil, List.length_append] at hflat
  have hpayload : octetsOf ((data ++ [lo, hi]).flatMap octetLE) data.length = data := by
    rw [List.flatMap_append]
    exact octetsOf_flatMap data _
  have hcheck : checkPasses ((data ++ [lo, hi]).flatMap octetLE) (8 * data.length) =
      decide (lo.toNat + 256 * hi.toNat = (protodecSdlcCrc data).toNat) := by
    rw [checkPasses, hdiv, hwhole]
    exact decide_eq_decide.mpr hresidue
  refine ⟨rbufferOf data, ?_, fun j o ho i hi => rbufferOf_octet (by omega) ho hi,
    fun k hk hlt => rbufferOf_zero (by omega) hk hlt⟩
  rw [calculateCrc_eq hholds (by omega) (by rw [hdiv, hlen]) (by change _ ≤ 450; omega), hcheck,
    hdiv, hpayload]

/-- A decoder whose buffer starts with some bits. -/
def holding (p : List Bool) : DemodState :=
  { protodecInitialize .zeroed false false 65 with
    buffer := splice (Vector.replicate _ 0) 0 (p.map byte) }

/-- It holds them. -/
theorem holding_bits {p : List Bool} (hfit : p.length ≤ demodBufferLen) :
    HoldsBits (holding p).buffer 0 p :=
  holdsBits_splice _ hfit

/-- An octet with its check sequence. -/
theorem calculateCrc_residue_octet :
    ∃ rbuffer, protodecCalculateCrc 8 (holding ([4, 92, 182].flatMap octetLE)) =
        some (true, { holding ([4, 92, 182].flatMap octetLE) with rbuffer := rbuffer }, []) ∧
      rbuffer[5]? = some 1 := by
  obtain ⟨rbuffer, hcalc, hbits, -⟩ := (calculateCrc_residue [4] 92 182).2
    (holding ([4, 92, 182].flatMap octetLE)) (List.cons_ne_nil _ _) (holding_bits (by decide))
  refine ⟨rbuffer, hcalc.trans ?_, hbits 0 4 rfl 5 (by decide)⟩
  rw [show decide ((92 : UInt8).toNat + 256 * (182 : UInt8).toNat =
    (protodecSdlcCrc [4]).toNat) = true by decide +kernel]

/-- The check sequence of no octets at all is two zero octets, but a frame of
nothing else is refused without a look at it. -/
theorem empty_payload_refused :
    HoldsBits (holding (List.replicate 16 false)).buffer 0
      (([] ++ [(0 : UInt8), 0]).flatMap octetLE) ∧
    (0 : UInt8).toNat + 256 * (0 : UInt8).toNat = (protodecSdlcCrc []).toNat ∧
    protodecCalculateCrc (8 * ([] : List UInt8).length : ℕ) (holding (List.replicate 16 false)) =
      some (false, holding (List.replicate 16 false), [.hlog crcLengthError]) := by
  refine ⟨?_, by decide +kernel, ?_⟩
  · have hbits : ([] ++ [(0 : UInt8), 0]).flatMap octetLE = List.replicate 16 false := by decide
    exact hbits.symm ▸ holding_bits (by decide)
  · rw [protodecCalculateCrc, if_pos (by decide)]

/-! ## Errors

The register is linear. The difference of two frames that pass goes through a register
that starts at zero and ends there, so only the errors count and not the frame. -/

/-- A frame passes again after its bits were disturbed only if the errors drive
the zero register back to zero. -/
theorem checkPasses_disturbed {m : ℕ} {p e : List Bool} (hp : p.length = 8 * m + 16)
    (he : e.length = p.length) (hpass : checkPasses p (8 * m) = true) :
    checkPasses (List.zipWith xor p e) (8 * m) = true ↔ Crc.run crcPoly 0#16 e = 0#16 := by
  have hdiv : 8 * m / 8 = m := Nat.mul_div_cancel_left _ (by omega)
  have hrun : ∀ bs : List Bool, bs.length = 8 * m + 16 →
      (checkPasses bs (8 * m) = true ↔ ~~~ Crc.run crcPoly 0xffff#16 bs = 0x0f47#16) := by
    intro bs hbs
    rw [checkPasses, hdiv, decide_eq_true_iff, protodecSdlcCrc_eq, octetsOf_bits _ _ (by omega),
      List.take_of_length_le (by omega)]
  rw [hrun p hp] at hpass
  rw [hrun _ (by rw [List.length_zipWith]; omega), ← hpass, BitVec.not_inj,
    Crc.run_error_iff _ he.symm]

/-- Whether the frame check is right. -/
def frameCheck (m : ℕ) (d : DemodState) : Option Bool :=
  (protodecCalculateCrc (8 * m : ℕ) d).map fun r => r.1

/-- It depends on the octets in the buffer only. -/
theorem frameCheck_eq {m : ℕ} (hm : 0 < m) {d : DemodState} {p : List Bool}
    (hp : p.length = 8 * m + 16) (hholds : HoldsBits d.buffer 0 p) :
    frameCheck m d = some (checkPasses p (8 * m)) := by
  have hfit := hholds.length_le
  rw [frameCheck, calculateCrc_eq hholds (by omega) (by omega) (by omega)]
  rfl

/-- Every frame that passes the check fails it with errors that lie within 16 consecutive
bits or are odd in number. The errors may lie in the check sequence as well, or on both
sides of its border. -/
theorem detects_errors {m : ℕ} (hm : 0 < m) {d d' : DemodState} {p e : List Bool}
    (hp : p.length = 8 * m + 16) (he : e.length = 8 * m + 16)
    (hholds : HoldsBits d.buffer 0 p) (hholds' : HoldsBits d'.buffer 0 (List.zipWith xor p e))
    (hpass : frameCheck m d = some true) (hone : true ∈ e)
    (herr : Crc.Burst 16 e ∨ Odd (e.count true)) : frameCheck m d' = some false := by
  rw [frameCheck_eq hm hp hholds, Option.some.injEq] at hpass
  rw [frameCheck_eq hm (by rw [List.length_zipWith]; omega) hholds', Option.some.injEq,
    ← Bool.not_eq_true, checkPasses_disturbed hp (by omega) hpass]
  rcases herr with hburst | hodd
  · exact Crc.burst_ne_zero (by decide) hburst hone
  · exact Crc.odd_ne_zero (by decide) hodd

/-- One wrong bit in a frame of one octet. -/
theorem detects_errors_octet :
    frameCheck 1 (holding (List.zipWith xor ([4, 92, 182].flatMap octetLE)
      (List.replicate 3 false ++ true :: List.replicate 20 false))) = some false :=
  detects_errors Nat.one_pos rfl rfl (holding_bits (by decide))
    (holding_bits (by decide)) (by decide +kernel) (by decide) (.inr (by decide))

end Gnuais
