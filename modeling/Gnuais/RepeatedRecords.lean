import Gnuais.Received

/-!
# Messages of repeated records

Acknowledgements (types 7 and 13) and data link management (type 20) carry up to
four records of one width behind a head of 40 bits. Their loops run up to the length
that `protodec_getdata` has padded to whole letters, so a record counts as received
once its last bits are fill bits.

`recordLoop_eq` counts the turns of both loops. `repeated_records_iff` says when the
records that are reported are the ones that were received; `fillCompletes_ack` and
`fillCompletes_reserve` list the lengths at which they are not.
-/

namespace Gnuais

open Buffer Bits Layout

/-! ## The records of a message

Both kinds of record are read in the same way: while the end of the next one is inside the
frame, at most four times. The width and what is printed are the parameters. -/

/-- The bits of a record. -/
def recordWidth (type : ℕ) : ℕ := if type = 20 then 30 else 32

/-- Record `i` as it is printed, for what is read at some bits. -/
def recordCall (type : ℕ) (value : ℕ → ℕ → ℕ) (i : ℕ) : Call :=
  let pos := 40 + recordWidth type * i
  if type = 20 then
    .printf (.reserve (i + 1) (value pos 12) (value (pos + 12) 4) (value (pos + 16) 3)
      (value (pos + 19) 11))
  else .printf (.ack (i + 1) (value pos 30) (value (pos + 30) 2))

/-- What is printed in front of the records, for a padded length. -/
def recordHeader (type bufferlen : ℕ) : List Call :=
  if type = 20 then [] else [.printf (.ackHeader bufferlen 72)]

/-- The first records that end within so many bits, four at most. -/
def recordCount (type bits : ℕ) : ℕ := min 4 ((bits - 40) / recordWidth type)

/-- The records that lie in a message. -/
def wholeRecords (type : ℕ) (p : List Bool) : List Call :=
  (List.range (recordCount type p.length)).map (recordCall type (field p))

/-- One of the first four records ends in the fill bits. -/
def FillCompletes (type bufferlen : ℕ) : Prop :=
  ∃ k ∈ [1, 2, 3, 4], bufferlen < 40 + recordWidth type * k ∧
    40 + recordWidth type * k ≤ bufferlen + fillbitsOf bufferlen

instance (type bufferlen : ℕ) : Decidable (FillCompletes type bufferlen) :=
  inferInstanceAs (Decidable (∃ k ∈ [1, 2, 3, 4], _ ∧ _))

/-! ## The loops

The two loops of the source compare with `<` and with `<=`. For the lengths that occur it
makes no difference. -/

/-- A loop that reads records while they end within `bufferlen`. -/
theorem recordLoop_eq (loop : ℕ → ℕ → Option (List Call)) (record : ℕ → Call) (bufferlen : ℕ)
    {w : ℕ} (hw : 0 < w) (hnone : ∀ i, loop 0 i = some [])
    (hstop : ∀ left i, bufferlen < 40 + w * (i + 1) → loop (left + 1) i = some [])
    (hnext : ∀ left i, 40 + w * (i + 1) ≤ bufferlen →
      loop (left + 1) i = (loop left (i + 1)).map (record i :: ·)) (left : ℕ) :
    ∀ i, loop left i =
      some ((List.range' i (min left ((bufferlen - 40) / w - i))).map record) := by
  induction left with
  | zero =>
    intro i
    rw [hnone, Nat.zero_min]
    rfl
  | succ left ih =>
    intro i
    by_cases hends : 40 + w * (i + 1) ≤ bufferlen
    · have hcount : i + 1 ≤ (bufferlen - 40) / w := by
        rw [Nat.le_div_iff_mul_le hw, Nat.mul_comm]
        omega
      have hleft : min (left + 1) ((bufferlen - 40) / w - i) =
          min left ((bufferlen - 40) / w - (i + 1)) + 1 := by omega
      rw [hnext left i hends, ih (i + 1), hleft, List.range'_succ]
      rfl
    · have hcount : (bufferlen - 40) / w - i = 0 := by
        have hpos : 0 < w * (i + 1) := Nat.mul_pos hw (Nat.succ_pos i)
        refine Nat.sub_eq_zero_of_le (Nat.le_of_lt_succ ?_)
        rw [Nat.succ_eq_add_one, Nat.div_lt_iff_lt_mul hw, Nat.mul_comm]
        omega
      rw [hstop left i (Nat.not_le.mp hends), hcount, Nat.min_zero]
      rfl

/-- What a loop reads of a frame. -/
def readRecords (type bufferlen : ℕ) (rbuffer : Frame) : List Call :=
  (List.range (recordCount type bufferlen)).map
    (recordCall type fun pos len => hentenVal pos len rbuffer)

/-- The loop of types 7 and 13. -/
theorem protodec713_eq {bufferlen : ℕ} (h : bufferlen ≤ demodBufferLen) (rbuffer : Frame)
    {type : ℕ} (htype : type ≠ 20) :
    protodec713 bufferlen rbuffer =
      some (recordHeader type bufferlen ++ readRecords type bufferlen rbuffer) := by
  have hsize : demodBufferLen = 450 := rfl
  have hwidth : recordWidth type = 32 := if_neg htype
  have hloop := recordLoop_eq (fun left i => protodec713Loop bufferlen rbuffer left i (40 + 32 * i))
    (recordCall type fun pos len => hentenVal pos len rbuffer) bufferlen (show 0 < 32 by decide)
    (fun _ => rfl) (fun left i hends => by
      simp only [protodec713Loop]
      rw [if_neg (by omega)])
    (fun left i hends => by
      simp only [protodec713Loop]
      rw [if_pos (by omega), henten_frame _ (by omega), henten_frame _ (by omega), recordCall,
        if_neg htype, hwidth]
      exact Option.map_eq_bind.symm) 4 0
  rw [protodec713, hloop, recordHeader, if_neg htype, readRecords, recordCount, hwidth,
    List.range_eq_range']
  rfl

/-- The padded length is no end of a record of 30 bits, so `<` and `<=` agree. -/
theorem protodec20_eq {bufferlen : ℕ} (h : bufferlen ≤ demodBufferLen) (h6 : bufferlen % 6 = 0)
    (rbuffer : Frame) :
    protodec20 bufferlen rbuffer = some (readRecords 20 bufferlen rbuffer) := by
  have hsize : demodBufferLen = 450 := rfl
  have hloop := recordLoop_eq (fun left i => protodec20Loop bufferlen rbuffer left i (40 + 30 * i))
    (recordCall 20 fun pos len => hentenVal pos len rbuffer) bufferlen (show 0 < 30 by decide)
    (fun _ => rfl) (fun left i hends => by
      simp only [protodec20Loop]
      rw [if_neg (by omega)])
    (fun left i hends => by
      simp only [protodec20Loop]
      rw [if_pos (by omega), henten_frame _ (by omega), henten_frame _ (by omega),
        henten_frame _ (by omega), henten_frame _ (by omega)]
      exact Option.map_eq_bind.symm) 4 0
  rw [protodec20, hloop, readRecords, List.range_eq_range']
  rfl

/-- The records of a padded frame are read at once. -/
theorem messageCalls_records (cfg : Config) {bufferlen : ℕ} (h : bufferlen ≤ demodBufferLen)
    (h6 : bufferlen % 6 = 0) (rbuffer : Frame) (receivedT : ℤ) (mmsi : ℕ) {type : ℕ}
    (htype : type = 7 ∨ type = 13 ∨ type = 20) :
    messageCalls cfg type bufferlen rbuffer receivedT mmsi =
      some (recordHeader type bufferlen ++ readRecords type bufferlen rbuffer) := by
  rcases htype with rfl | rfl | rfl
  · exact protodec713_eq h rbuffer (by decide)
  · exact protodec713_eq h rbuffer (by decide)
  · exact protodec20_eq h h6 rbuffer

/-! ## Which records are reported

The frame is padded to whole letters before it is decoded. If a record ends within the
padding, it is printed although it was not received as a whole. -/

/-- A record has bits. -/
theorem recordWidth_pos (type : ℕ) : 0 < recordWidth type := by
  rw [recordWidth]
  split <;> decide

/-- A record is counted once its end is reached. -/
theorem lt_recordCount_iff {type bits k : ℕ} (hk : k < 4) :
    k < recordCount type bits ↔ 40 + recordWidth type * (k + 1) ≤ bits := by
  have hpos : 0 < recordWidth type * (k + 1) := Nat.mul_pos (recordWidth_pos type) (Nat.succ_pos k)
  rw [recordCount, Nat.lt_min, and_iff_right hk, Nat.lt_iff_add_one_le,
    Nat.le_div_iff_mul_le (recordWidth_pos type), Nat.mul_comm]
  omega

/-- A record inside the message is read from its bits. -/
theorem recordCall_inside {type : ℕ} {rbuffer : Frame} {p : List Bool}
    (hholds : HoldsBits rbuffer 0 p) {i : ℕ} (hinside : i < recordCount type p.length) :
    recordCall type (fun pos len => hentenVal pos len rbuffer) i = recordCall type (field p) i := by
  have hends := (lt_recordCount_iff (lt_of_lt_of_le hinside (Nat.min_le_left _ _))).mp hinside
  by_cases h20 : type = 20
  · have hwidth : recordWidth type = 30 := if_pos h20
    rw [hwidth] at hends
    simp only [recordCall, if_pos h20, hwidth]
    rw [hentenVal_field hholds (by omega), hentenVal_field hholds (by omega),
      hentenVal_field hholds (by omega), hentenVal_field hholds (by omega)]
  · have hwidth : recordWidth type = 32 := if_neg h20
    rw [hwidth] at hends
    simp only [recordCall, if_neg h20, hwidth]
    rw [hentenVal_field hholds (by omega), hentenVal_field hholds (by omega)]

/-- The fill bits change the number of records exactly if one ends in them. -/
theorem recordCount_padded_iff (type bufferlen : ℕ) :
    recordCount type (bufferlen + fillbitsOf bufferlen) = recordCount type bufferlen ↔
      ¬ FillCompletes type bufferlen := by
  have hle : recordCount type bufferlen ≤ recordCount type (bufferlen + fillbitsOf bufferlen) :=
    min_le_min_left 4 (Nat.div_le_div_right (by omega))
  rw [← not_iff_not, not_not]
  constructor
  · intro hne
    have hlt := lt_of_le_of_ne hle (Ne.symm hne)
    have hfour : recordCount type bufferlen < 4 := lt_of_lt_of_le hlt (Nat.min_le_left _ _)
    refine ⟨recordCount type bufferlen + 1, ?_, ?_, (lt_recordCount_iff hfour).mp hlt⟩
    · simp only [List.mem_cons, List.not_mem_nil, or_false]
      omega
    · exact Nat.not_le.mp fun h => lt_irrefl _ ((lt_recordCount_iff hfour).mpr h)
  · rintro ⟨k, hk, hbehind, hwithin⟩ heq
    obtain ⟨j, rfl, hj⟩ : ∃ j, k = j + 1 ∧ j < 4 := by
      simp only [List.mem_cons, List.not_mem_nil, or_false] at hk
      exact ⟨k - 1, by omega, by omega⟩
    have hlt := (lt_recordCount_iff hj).mpr hwithin
    rw [heq, lt_recordCount_iff hj] at hlt
    omega

/-- The lengths at which fill bits make an acknowledgement. -/
theorem fillCompletes_ack {type bufferlen : ℕ} (htype : type ≠ 20) :
    FillCompletes type bufferlen ↔
      bufferlen ∈ [67, 68, 69, 70, 71, 103, 133, 134, 135, 163, 164, 165, 166, 167] := by
  have hwidth : recordWidth type = 32 := if_neg htype
  simp only [FillCompletes, hwidth, fillbitsOf, List.mem_cons, List.not_mem_nil, or_false,
    exists_eq_or_imp, exists_eq_left]
  split <;> omega

/-- The lengths at which fill bits make a reservation. -/
theorem fillCompletes_reserve {bufferlen : ℕ} :
    FillCompletes 20 bufferlen ↔
      bufferlen ∈ [67, 68, 69, 97, 98, 99, 127, 128, 129, 157, 158, 159] := by
  have hwidth : recordWidth 20 = 30 := rfl
  simp only [FillCompletes, hwidth, fillbitsOf, List.mem_cons, List.not_mem_nil, or_false,
    exists_eq_or_imp, exists_eq_left]
  split <;> omega

/-- Which calls a frame of repeated records is reported by. -/
theorem records_reported_iff (cfg : Config) (receivedT : ℤ) {d : DemodState} {p : List Bool}
    (hrec : Received d p.length p) {type : ℕ} (htype : type = 7 ∨ type = 13 ∨ type = 20)
    (hread : protodecHenten 0 6 d.rbuffer = some type) (hskip : cfg.skipType type = false) :
    Reported cfg receivedT p.length d type (hentenVal 8 30 d.rbuffer)
        (recordHeader type (p.length + fillbitsOf p.length) ++ wholeRecords type p) ↔
      ¬ FillCompletes type p.length := by
  have hval : cUChar (hentenVal 0 6 d.rbuffer) = type := by
    rw [henten_frame d.rbuffer (by decide)] at hread
    rw [Option.some.inj hread]
    rcases htype with rfl | rfl | rfl <;> rfl
  have hknown : 1 ≤ type ∧ type ≤ maxAisPacketType := by
    rcases htype with rfl | rfl | rfl <;> decide
  rw [reported_iff_messages hrec.fits hval hknown hskip
      (messageCalls_records cfg hrec.fits (padded_mod _) _ receivedT _ htype),
    List.append_cancel_left_eq, ← recordCount_padded_iff, readRecords, wholeRecords]
  constructor
  · intro h
    have hlen := congrArg List.length h
    rwa [List.length_map, List.length_map, List.length_range, List.length_range] at hlen
  · intro h
    rw [h]
    exact List.map_congr_left fun i hi => recordCall_inside hrec.filled (List.mem_range.mp hi)

section Kinds

variable (cfg : Config) (receivedT : ℤ) {d : DemodState} {p : List Bool}
  (hrec : Received d p.length p)

include hrec

/-- Types 7 and 13. -/
theorem acks_reported_iff {type : ℕ} (htype : type = 7 ∨ type = 13)
    (hread : protodecHenten 0 6 d.rbuffer = some type) (hskip : cfg.skipType type = false) :
    Reported cfg receivedT p.length d type (hentenVal 8 30 d.rbuffer)
        (.printf (.ackHeader (p.length + fillbitsOf p.length) 72) :: wholeRecords type p) ↔
      p.length ∉ [67, 68, 69, 70, 71, 103, 133, 134, 135, 163, 164, 165, 166, 167] := by
  have h20 : type ≠ 20 := by
    rcases htype with rfl | rfl <;> decide
  have hreported :=
    records_reported_iff cfg receivedT hrec (htype.imp_right .inl) hread hskip
  rw [fillCompletes_ack h20, recordHeader, if_neg h20] at hreported
  exact hreported

/-- Type 20. -/
theorem reservations_reported_iff (hread : protodecHenten 0 6 d.rbuffer = some 20)
    (hskip : cfg.skipType 20 = false) :
    Reported cfg receivedT p.length d 20 (hentenVal 8 30 d.rbuffer) (wholeRecords 20 p) ↔
      p.length ∉ [67, 68, 69, 97, 98, 99, 127, 128, 129, 157, 158, 159] := by
  have hreported := records_reported_iff cfg receivedT hrec (.inr (.inr rfl)) hread hskip
  rw [fillCompletes_reserve, recordHeader, if_pos rfl, List.nil_append] at hreported
  exact hreported

end Kinds

/-- The records that are reported of a frame are the ones that lie in it, unless fill
bits make another one: these are the lengths at which they do. -/
theorem repeated_records_iff (cfg : Config) (receivedT : ℤ) (d : DemodState) (p : List Bool)
    (hrec : Received d p.length p) :
    (∀ type, type = 7 ∨ type = 13 → protodecHenten 0 6 d.rbuffer = some type →
      cfg.skipType type = false →
      (Reported cfg receivedT p.length d type (hentenVal 8 30 d.rbuffer)
          (.printf (.ackHeader (p.length + fillbitsOf p.length) 72) :: wholeRecords type p) ↔
        p.length ∉ [67, 68, 69, 70, 71, 103, 133, 134, 135, 163, 164, 165, 166, 167])) ∧
    (protodecHenten 0 6 d.rbuffer = some 20 → cfg.skipType 20 = false →
      (Reported cfg receivedT p.length d 20 (hentenVal 8 30 d.rbuffer) (wholeRecords 20 p) ↔
        p.length ∉ [67, 68, 69, 97, 98, 99, 127, 128, 129, 157, 158, 159])) :=
  ⟨fun _ htype hread hskip => acks_reported_iff cfg receivedT hrec htype hread hskip,
    fun hread hskip => reservations_reported_iff cfg receivedT hrec hread hskip⟩

/-! ## A reservation made of fill bits

The length of the frame is no multiple of six, and its last record lacks two bits. -/

/-- An acknowledgement of one message. -/
def oneAck : List Field :=
  [.number (7 : BitVec 6), .number (0 : BitVec 2), .number (2300010 : BitVec 30),
    .number (0 : BitVec 2), .number (230012345 : BitVec 30), .number (1 : BitVec 2)]

/-- Two reservations, and 28 bits behind them. -/
def twoReservations : List Field :=
  [.number (20 : BitVec 6), .number (0 : BitVec 2), .number (2300010 : BitVec 30),
    .number (0 : BitVec 2), .number (100 : BitVec 12), .number (1 : BitVec 4),
    .number (7 : BitVec 3), .number (750 : BitVec 11), .number (200 : BitVec 12),
    .number (2 : BitVec 4), .number (7 : BitVec 3), .number (750 : BitVec 11),
    .number (0 : BitVec 28)]

theorem oneAck_received :
    Received (decoding (pack oneAck)) (pack oneAck).length (pack oneAck) :=
  decoding_received (Nat.le_refl _) (by rw [length_pack]; decide)

theorem twoReservations_received :
    Received (decoding (pack twoReservations)) (pack twoReservations).length
      (pack twoReservations) :=
  decoding_received (Nat.le_refl _) (by rw [length_pack]; decide)

/-- The type of a packed message. -/
theorem henten_type {type : BitVec 6} {rest : List Field} {d : DemodState} {bufferlen : ℕ}
    (hrec : Received d bufferlen (pack (.number type :: rest))) :
    protodecHenten 0 6 d.rbuffer = some type.toNat :=
  henten_number hrec.holds (i := 0) rfl rfl

theorem repeated_records_iff_ack :
    (Reported .silent 0 (pack oneAck).length (decoding (pack oneAck)) 7
        (hentenVal 8 30 (decoding (pack oneAck)).rbuffer)
        (.printf (.ackHeader ((pack oneAck).length + fillbitsOf (pack oneAck).length) 72) ::
          wholeRecords 7 (pack oneAck)) ↔
      (pack oneAck).length ∉
        [67, 68, 69, 70, 71, 103, 133, 134, 135, 163, 164, 165, 166, 167]) ∧
    (Reported .silent 0 (pack twoReservations).length (decoding (pack twoReservations)) 20
        (hentenVal 8 30 (decoding (pack twoReservations)).rbuffer)
        (wholeRecords 20 (pack twoReservations)) ↔
      (pack twoReservations).length ∉
        [67, 68, 69, 97, 98, 99, 127, 128, 129, 157, 158, 159]) :=
  ⟨(repeated_records_iff .silent 0 _ _ oneAck_received).1 7 (.inl rfl)
      (henten_type oneAck_received) rfl,
    (repeated_records_iff .silent 0 _ _ twoReservations_received).2
      (henten_type twoReservations_received) rfl⟩

/-- The 28 bits and two fill bits are reported as a third reservation. -/
theorem fill_bits_reserved :
    (pack twoReservations).length = 128 ∧
    Received (decoding (pack twoReservations)) (pack twoReservations).length
      (pack twoReservations) ∧
    ¬ Reported .silent 0 (pack twoReservations).length (decoding (pack twoReservations)) 20
      (hentenVal 8 30 (decoding (pack twoReservations)).rbuffer)
      (wholeRecords 20 (pack twoReservations)) := by
  have hlen : (pack twoReservations).length = 128 := by
    rw [length_pack]
    rfl
  refine ⟨hlen, twoReservations_received, fun h => ?_⟩
  have hlisted := (reservations_reported_iff .silent 0 twoReservations_received
    (henten_type twoReservations_received) rfl).mp h
  rw [hlen] at hlisted
  exact hlisted (by decide)

end Gnuais
