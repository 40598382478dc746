import Gnuais.GuiLoops
import Gnuais.Lib.Numeral

/-!
# What a message owes to the ones before it

`r_buffer` of `aisdecode` is static: a payload overwrites as many of its bits as it
has, and the fields are read at fixed places whatever its length is. A payload that
ends in front of the last field its type reads is completed by the bits of earlier
messages.

`Forgets` says of a payload that no two histories can be told apart by what is
stored for it. `gui_decoding_history_iff` says which payloads those are.
-/

namespace Gnuais

open Buffer Bits

/-! ## Histories

The history of a process is the sequence of its earlier payloads, and its effect is the
array it leaves. Every array that calls of `aisdecode` can leave is `Earlier`. -/

/-- `r_buffer` after some calls of `aisdecode`. -/
def rBufferAfter : List (AisLine × ShipData) → RBuffer → Option RBuffer
  | [], rBuffer => some rBuffer
  | (nmea, data) :: calls, rBuffer => do
    let (_, rBuffer, _) ← aisdecode nmea rBuffer data
    rBufferAfter calls rBuffer

/-- What the calls made so far in a process can have left in `r_buffer`. The array starts
with zeros, as a static array does. -/
def Earlier (rBuffer : RBuffer) : Prop :=
  ∃ calls, rBufferAfter calls (Vector.replicate 600 0) = some rBuffer

/-- The fields that the type of a message sets. A number is compared by what it is
computed from, so a bit counts that rounding would hide. -/
structure StoredShip where
  /-- the type it was stored under -/
  type : ℕ
  /-- the number -/
  mmsi : ℕ
  /-- none for static data -/
  position : Option (FloatExpr × FloatExpr)
  /-- speed, course and heading, for a position report only -/
  motion : Option (FloatExpr × FloatExpr × FloatExpr)
  deriving DecidableEq

/-- Static data has no position, and a base station no motion. -/
def ShipData.stored (data : ShipData) : StoredShip where
  type := data.type
  mmsi := data.mmsi
  position := if data.type = 5 then none else some (data.latitude, data.longitude)
  motion := if data.type = 1 then some (data.speed, data.heading, data.course) else none

/-- The same is stored for the payload after any two histories. The histories are compared
by what they leave in `r_buffer`, as `aisdecode` reads nothing else of them. -/
def Forgets (nmea : AisLine) : Prop :=
  ∀ rBuffer₁ rBuffer₂, Earlier rBuffer₁ → Earlier rBuffer₂ → ∀ data₁ data₂,
    ∃ decoded₁ decoded₂, aisdecode nmea rBuffer₁ data₁ = some decoded₁ ∧
      aisdecode nmea rBuffer₂ data₂ = some decoded₂ ∧
      decoded₁.2.2.stored = decoded₂.2.2.stored

/-! ## The bits of a payload

A letter is six bits, and a field is read from the letters it lies in. The number of
letters that a type needs is where its last field ends, divided by six and rounded up. -/

/-- The bits of some letters. -/
def letterBools (letters : List UInt8) : List Bool :=
  letters.flatMap fun c => (List.range 6).map fun j => letterBit c j == 1

/-- The type a payload is read as. -/
def payloadType (letters : List UInt8) : ℕ := field (letterBools letters) 0 6

/-- The letters up to the last field that is read of a type. Position reports need fewer
letters than they have; what is behind their last field is not read. -/
def neededLetters (type : ℕ) : ℕ := if type = 5 then 7 else 23

/-- Six bits a letter. -/
theorem length_letterBools (letters : List UInt8) :
    (letterBools letters).length = letters.length * 6 := by
  have hsix : ∀ c, ((List.range 6).map fun j => letterBit c j == 1).length = 6 :=
    fun c => List.length_map _
  rw [letterBools, length_flatMap_blocks hsix, Nat.mul_comm]

/-- A letter is shifted and masked to one bit. -/
theorem byte_letterBit (c : UInt8) {j : ℕ} (hj : j < 6) : byte (letterBit c j == 1) = letterBit c j := by
  have hall : ∀ n < 256, ∀ j < 6,
      byte (letterBit (UInt8.ofNat n) j == 1) = letterBit (UInt8.ofNat n) j := by
    decide +kernel
  have hc := hall c.toNat c.toNat_lt j hj
  rwa [UInt8.ofNat_toNat] at hc

/-- The same bits, one a byte as `aisdecode` stores them. -/
theorem lineBits_eq (letters : List UInt8) : lineBits letters = (letterBools letters).map byte := by
  rw [lineBits, letterBools, List.map_flatMap]
  congr 1
  funext c
  rw [List.map_map]
  exact List.map_congr_left fun j hj => (byte_letterBit c (List.mem_range.mp hj)).symm

section Payload

variable {letters : List UInt8} (hfit : letters.length ≤ 100) (rBuffer : RBuffer)

include hfit

/-- `r_buffer` starts with the bits of the payload. -/
theorem letterBools_holds :
    HoldsBits (splice rBuffer 0 (lineBits letters)) 0 (letterBools letters) := by
  rw [lineBits_eq]
  exact holdsBits_splice rBuffer (by rw [length_letterBools]; omega)

/-- The bits behind the payload stay. -/
theorem letterBools_holds_append {b : Bool} (hold : ∀ i < 600, rBuffer[i]? = some (byte b)) :
    HoldsBits (splice rBuffer 0 (lineBits letters)) 0
      (letterBools letters ++ List.replicate (600 - letters.length * 6) b) := by
  have hlen := length_letterBools letters
  have hbits := length_lineBits letters
  intro i hi
  rw [List.length_append, List.length_replicate] at hi
  by_cases hfront : i < letters.length * 6
  · rw [List.getElem?_append_left (by omega)]
    exact letterBools_holds hfit rBuffer i (by omega)
  · rw [Nat.zero_add, getElem?_splice _ _ _ _ (by omega), if_neg (by omega), hold i (by omega),
      List.getElem?_append_right (by omega), List.getElem?_replicate, if_pos (by omega)]
    rfl

/-- A field inside the payload is read from it. -/
theorem hentenVal_letters {pos len : ℕ} (h : pos + len ≤ letters.length * 6) :
    hentenVal pos len (splice rBuffer 0 (lineBits letters)) = field (letterBools letters) pos len :=
  hentenVal_field (letterBools_holds hfit rBuffer) (by rw [length_letterBools]; exact h)

/-- The `switch` looks at the type of the payload. -/
theorem type_letters (hne : 1 ≤ letters.length) :
    cUChar (hentenVal 0 6 (splice rBuffer 0 (lineBits letters))) = payloadType letters := by
  rw [hentenVal_letters hfit rBuffer (by omega)]
  refine Nat.mod_eq_of_lt (lt_of_lt_of_le (field_lt ?_) (by decide))
  rw [length_letterBools]
  omega

end Payload

/-- A payload of some type has a letter. -/
theorem one_le_of_payloadType {letters : List UInt8} (h : 1 ≤ payloadType letters) :
    1 ≤ letters.length := by
  cases letters with
  | nil => exact absurd h (by decide)
  | cons c letters => exact Nat.succ_le_succ (Nat.zero_le _)

/-- The last bit of a field. -/
theorem field_mod_two {p : List Bool} {pos len : ℕ} {b : Bool} (h : p[pos + len]? = some b) :
    field p pos (len + 1) % 2 = b.toNat := by
  have hlast : (p.drop pos)[len]? = some b := by rw [List.getElem?_drop, h]
  rw [field, List.take_add_one, hlast, Option.toList_some, ofBits_concat, Nat.add_comm,
    Nat.add_mul_mod_self_left]
  exact Nat.mod_eq_of_lt (Bool.toNat_lt b)

/-! ## Payloads that are long enough

Every field lies in the payload, so what is stored is a function of the payload. -/

/-- What is stored for a payload that its type is content with. -/
def payloadStored (letters : List UInt8) : StoredShip :=
  let value pos len := field (letterBools letters) pos len
  match payloadType letters with
  | 1 | 2 | 3 => ⟨1, value 8 30,
      some (scaled (latitudeOf (value 89 27)) 600000, scaled (longitudeOf (value 61 28)) 600000),
      some (.div (.ofInt (value 50 10)) (.ofInt 10), .ofInt (value 128 9),
        .div (.ofInt (value 116 12)) (.ofInt 10))⟩
  | 4 => ⟨4, value 8 30, some (.div (.ofInt (value 107 27)) (.ofInt 600000),
      .div (.ofInt (longitudeOf (value 79 28))) (.ofInt 600000)), none⟩
  | _ => ⟨5, value 8 30, none, none⟩

/-- Every field that is read lies in the payload. -/
theorem stored_eq {letters : List UInt8} (hfit : letters.length ≤ 100)
    (htype : 1 ≤ payloadType letters ∧ payloadType letters ≤ 5)
    (hneeded : neededLetters (payloadType letters) ≤ letters.length) (rBuffer : RBuffer)
    (data : ShipData) :
    (decodedShip (splice rBuffer 0 (lineBits letters)) data).stored = payloadStored letters := by
  have hread := type_letters hfit rBuffer (one_le_of_payloadType htype.1)
  have hval : ∀ {pos len : ℕ}, pos + len ≤ letters.length * 6 →
      hentenVal pos len (splice rBuffer 0 (lineBits letters)) =
        field (letterBools letters) pos len :=
    hentenVal_letters hfit rBuffer
  rw [decodedShip, hread, payloadStored]
  generalize payloadType letters = type at htype hneeded
  have hcases : type = 1 ∨ type = 2 ∨ type = 3 ∨ type = 4 ∨ type = 5 := by omega
  have hlong : type ≠ 5 → 23 ≤ letters.length := fun h => by rwa [neededLetters, if_neg h] at hneeded
  rcases hcases with rfl | rfl | rfl | rfl | rfl
  · have hlong := hlong (by decide)
    simp (disch := omega) only [ShipData.stored, type1Ship, hval]
    rfl
  · have hlong := hlong (by decide)
    simp (disch := omega) only [ShipData.stored, type1Ship, hval]
    rfl
  · have hlong := hlong (by decide)
    simp (disch := omega) only [ShipData.stored, type1Ship, hval]
    rfl
  · have hlong := hlong (by decide)
    simp (disch := omega) only [ShipData.stored, type4Ship, hval]
    rfl
  · rw [neededLetters, if_pos rfl] at hneeded
    simp (disch := omega) only [ShipData.stored, type5Ship, hval]
    rfl

/-! ## Payloads that are too short

Two histories tell a short payload apart: the empty one, which leaves zeros, and one
payload of ones. The last bit of the last field is 0 after the first and 1 after the
second. -/

/-- A hundred letters whose bits are all set. -/
def allOnes : AisLine := splice (Vector.replicate 500 0) 0 (List.replicate 100 119 ++ [0])

/-- A `shipd` to start from. -/
def noData : ShipData := ⟨0, 0, .lit 0, .lit 0, .lit 0, .lit 0, .lit 0⟩

/-- Before the first call all bits are clear. -/
theorem earlier_zeros : Earlier (Vector.replicate 600 0) := ⟨[], rfl⟩

/-- One call can leave all bits set. -/
theorem earlier_ones : ∃ rBuffer, Earlier rBuffer ∧ ∀ i < 600, rBuffer[i]? = some (byte true) := by
  have hline : HoldsAt allOnes 0 (List.replicate 100 119 ++ [0]) :=
    holdsAt_splice _ _ (by rw [List.length_append, List.length_replicate]; decide)
  have hdecode := aisdecode_eq_ite hline (Vector.replicate 600 0) noData
  have hzero : (List.replicate 100 (119 : UInt8)).takeWhile (· ≠ 0) = List.replicate 100 119 :=
    List.takeWhile_replicate ..
  have hcomma : (List.replicate 100 (119 : UInt8)).takeWhile (· ≠ 44) = List.replicate 100 119 :=
    List.takeWhile_replicate ..
  dsimp only at hdecode
  rw [hzero, hcomma, if_pos (by rw [List.length_replicate])] at hdecode
  refine ⟨splice (Vector.replicate 600 0) 0 (lineBits (List.replicate 100 119)),
    ⟨[(allOnes, noData)], ?_⟩, fun i hi => ?_⟩
  · rw [rBufferAfter, hdecode]
    rfl
  · have hset : ∀ j < 6, letterBit 119 j = byte true := by decide
    have hlen := length_lineBits (List.replicate 100 119)
    rw [List.length_replicate] at hlen
    rw [getElem?_splice _ _ _ _ (by omega), if_pos (by omega), Nat.sub_zero, getElem?_lineBits,
      List.getElem?_replicate, if_pos (by omega), Option.map_some, hset _ (Nat.mod_lt _ (by decide))]

/-- The last bit of a field that ends behind the payload is an old one. -/
theorem hentenVal_old {letters : List UInt8} (hfit : letters.length ≤ 100) {rBuffer : RBuffer}
    {b : Bool} (hold : ∀ i < 600, rBuffer[i]? = some (byte b)) {pos len : ℕ}
    (hbehind : letters.length * 6 ≤ pos + len) (hinside : pos + len < 600) :
    hentenVal pos (len + 1) (splice rBuffer 0 (lineBits letters)) % 2 = b.toNat := by
  have hlen := length_letterBools letters
  rw [hentenVal_field (letterBools_holds_append hfit rBuffer hold)
    (by rw [List.length_append, List.length_replicate]; omega)]
  refine field_mod_two ?_
  rw [List.getElem?_append_right (by omega), List.getElem?_replicate, if_pos (by omega)]

/-- What is stored for a short payload tells whether the bits behind it are set. -/
theorem stored_ne {letters : List UInt8} (hfit : letters.length ≤ 100)
    (htype : 1 ≤ payloadType letters ∧ payloadType letters ≤ 5)
    (hshort : letters.length < neededLetters (payloadType letters)) {rBuffer₁ rBuffer₂ : RBuffer}
    (hclear : ∀ i < 600, rBuffer₁[i]? = some (byte false))
    (hset : ∀ i < 600, rBuffer₂[i]? = some (byte true)) (data₁ data₂ : ShipData) :
    (decodedShip (splice rBuffer₁ 0 (lineBits letters)) data₁).stored ≠
      (decodedShip (splice rBuffer₂ 0 (lineBits letters)) data₂).stored := by
  have hne := one_le_of_payloadType htype.1
  have hread₁ := type_letters hfit rBuffer₁ hne
  have hread₂ := type_letters hfit rBuffer₂ hne
  -- the parity of a field that ends behind the payload
  have hdiffer : ∀ {pos len : ℕ}, letters.length * 6 ≤ pos + len → pos + len < 600 →
      hentenVal pos (len + 1) (splice rBuffer₁ 0 (lineBits letters)) ≠
        hentenVal pos (len + 1) (splice rBuffer₂ 0 (lineBits letters)) := by
    intro pos len hbehind hinside heq
    have hold := hentenVal_old hfit hclear hbehind hinside
    rw [heq, hentenVal_old hfit hset hbehind hinside] at hold
    exact absurd hold (by decide)
  intro heq
  rcases (show (payloadType letters = 1 ∨ payloadType letters = 2 ∨ payloadType letters = 3) ∨
    payloadType letters = 4 ∨ payloadType letters = 5 by omega) with hvessel | hstation | hstatic
  · rw [neededLetters, if_neg (by omega)] at hshort
    rw [decodedShip_type1 _ (by rwa [hread₁]), decodedShip_type1 _ (by rwa [hread₂])] at heq
    have hmotion := congrArg (fun stored => stored.motion.map fun m => m.2.1) heq
    have hheading := FloatExpr.ofInt.inj (Option.some.inj hmotion)
    exact hdiffer (show letters.length * 6 ≤ 128 + 8 by omega) (by decide) (Int.ofNat.inj hheading)
  · rw [neededLetters, if_neg (by omega)] at hshort
    rw [decodedShip_type4 _ (hread₁.trans hstation), decodedShip_type4 _ (hread₂.trans hstation)]
      at heq
    have hposition := congrArg (fun stored => stored.position.map Prod.fst) heq
    have hlatitude := FloatExpr.ofInt.inj (FloatExpr.div.inj (Option.some.inj hposition)).1
    exact hdiffer (show letters.length * 6 ≤ 107 + 26 by omega) (by decide)
      (Int.ofNat.inj hlatitude)
  · rw [neededLetters, if_pos hstatic] at hshort
    rw [decodedShip_type5 _ (hread₁.trans hstatic), decodedShip_type5 _ (hread₂.trans hstatic)]
      at heq
    exact hdiffer (show letters.length * 6 ≤ 8 + 29 by omega) (by decide)
      (congrArg StoredShip.mmsi heq)

/-! ## Which payloads forget

For a payload of a type the window stores the two cases above are all there is, apart from
a payload of more than a hundred letters, for which nothing is stored at all. -/

/-- With a name for the letters in front of a comma. -/
theorem forgets_iff {nmea : AisLine} {line : List UInt8} (hline : HoldsAt nmea 0 (line ++ [0]))
    (hzero : 0 ∉ line) {letters : List UInt8} (hletters : line.takeWhile (· ≠ 44) = letters)
    (htype : 1 ≤ payloadType letters ∧ payloadType letters ≤ 5) :
    Forgets nmea ↔
      neededLetters (payloadType letters) ≤ letters.length ∧ letters.length ≤ 100 := by
  have hall : line.takeWhile (· ≠ 0) = line :=
    List.takeWhile_eq_self_iff.mpr fun c hc => decide_eq_true fun h => hzero (h ▸ hc)
  have hdecode : ∀ rBuffer data, letters.length ≤ 100 → aisdecode nmea rBuffer data =
      some (letters.length * 6, splice rBuffer 0 (lineBits letters),
        decodedShip (splice rBuffer 0 (lineBits letters)) data) := by
    intro rBuffer data hfit
    rw [aisdecode_eq_ite hline, hall, hletters]
    exact if_pos hfit
  constructor
  · intro hforgets
    obtain ⟨ones, hones, hset⟩ := earlier_ones
    obtain ⟨decoded₁, decoded₂, h₁, h₂, hsame⟩ :=
      hforgets _ _ earlier_zeros hones noData noData
    have hfit : letters.length ≤ 100 := by
      have hsome := (aisdecode_isSome_iff hline _ noData).mp (by rw [h₁]; rfl)
      rwa [hall, hletters] at hsome
    refine ⟨Nat.not_lt.mp fun hshort => ?_, hfit⟩
    rw [hdecode _ _ hfit] at h₁ h₂
    obtain rfl := Option.some.inj h₁
    obtain rfl := Option.some.inj h₂
    refine stored_ne hfit htype hshort (fun i hi => ?_) hset noData noData hsame
    exact (Vector.getElem?_replicate ..).trans (if_pos hi)
  · rintro ⟨hneeded, hfit⟩ rBuffer₁ rBuffer₂ - - data₁ data₂
    refine ⟨_, _, hdecode rBuffer₁ data₁ hfit, hdecode rBuffer₂ data₂ hfit, ?_⟩
    exact (stored_eq hfit htype hneeded rBuffer₁ data₁).trans
      (stored_eq hfit htype hneeded rBuffer₂ data₂).symm

/-- What is stored for a payload does not depend on the calls before exactly if the
payload has every letter its type is read from, and fits in `r_buffer`. A payload that is
too short is completed by what earlier messages have left behind it. -/
theorem gui_decoding_history_iff (nmea : AisLine) (line : List UInt8)
    (hline : HoldsAt nmea 0 (line ++ [0])) (hzero : 0 ∉ line)
    (htype : 1 ≤ payloadType (line.takeWhile (· ≠ 44)) ∧
      payloadType (line.takeWhile (· ≠ 44)) ≤ 5) :
    Forgets nmea ↔
      neededLetters (payloadType (line.takeWhile (· ≠ 44))) ≤ (line.takeWhile (· ≠ 44)).length ∧
        (line.takeWhile (· ≠ 44)).length ≤ 100 :=
  forgets_iff hline hzero rfl htype

/-- The payload of a position report, all of its 28 letters. -/
def wholeReport : List UInt8 := ascii "13u?etPv2;0n:dDPwUM1U1Cb069D"

/-- An `aisline` with it. -/
def wholeLine : AisLine := splice (Vector.replicate 500 0) 0 (wholeReport ++ [0])

theorem gui_decoding_history_iff_report :
    Forgets wholeLine ↔
      neededLetters (payloadType (wholeReport.takeWhile (· ≠ 44))) ≤
          (wholeReport.takeWhile (· ≠ 44)).length ∧
        (wholeReport.takeWhile (· ≠ 44)).length ≤ 100 :=
  gui_decoding_history_iff wholeLine wholeReport (holdsAt_splice _ _ (by decide)) (by decide)
    (by decide)

/-- A letter that stands for type 1, and nothing behind it. -/
def oneLetter : AisLine := splice (Vector.replicate 500 0) 0 ([49] ++ [0])

/-- The position stored for it is that of a message before. -/
theorem one_letter_remembers : ¬ Forgets oneLetter := by
  have hline : HoldsAt oneLetter 0 ([49] ++ [0]) := holdsAt_splice _ _ (by decide)
  rw [forgets_iff hline (by decide) rfl (by decide)]
  decide

end Gnuais
