import Gnuais.Field

/-!
# The message decoders

`protodec_pos` to `protodec_24`, each with the fields it reads, its narrowing
conversions, what it prints and what it passes to the database and the cache.
They read `rbuffer` at fixed offsets and change nothing in the decoder, so each
is a function from the frame to its calls; a read outside the frame is `none`.

`messageCalls` is the dispatch of `protodec_getdata`, and
`messageCalls_isSome` says that no decoder reads outside the array, however
short the received frame was.
-/

namespace Gnuais

/-- `rbuffer` -/
abbrev Frame : Type := Vector UInt8 demodBufferLen

/-- `if (cond) call;` -/
def callIf (cond : Bool) (c : Call) : List Call := if cond then [c] else []

/-! ## Position reports

The three decoders that report a position compute the coordinates in the same way and
differ in where they read. Type 4 has neither speed nor course and puts zeros in their
place; type 18 has a fixed navigational status. -/

/-- `protodec_pos`, message types 1, 2 and 3. -/
def protodecPos (cfg : Config) (rbuffer : Frame) (receivedT : ℤ) (mmsi : ℕ) :
    Option (List Call) := do
  let longitude := longitudeOf (← protodecHenten 61 28 rbuffer)
  let latitude := latitudeOf (← protodecHenten (38 + 22 + 29) 27 rbuffer)
  let course := cUShort (← protodecHenten (38 + 22 + 28 + 28) 12 rbuffer)
  let sog := cUShort (← protodecHenten 50 10 rbuffer)
  let rateofturn := cChar (← protodecHenten (38 + 2) 8 rbuffer)
  let navstat := cChar (← protodecHenten 38 2 rbuffer)
  let heading := cUShort (← protodecHenten (38 + 22 + 28 + 28 + 12) 9 rbuffer)
  let lat := scaled latitude 600000
  let lon := scaled longitude 600000
  return .printf (.position lat lon (scaled course 10) (scaled sog 10) rateofturn navstat heading)
    :: callIf cfg.my
      (.myoutAisPosition receivedT mmsi lat lon (.ofInt heading) (scaled course 10)
        (scaled sog 10))
    ++ callIf cfg.cachePositions
      (.cache (.position receivedT (Int32.ofNat mmsi) navstat lat lon heading (scaled course 10)
        rateofturn (scaled sog 10)))
    ++ callIf cfg.haveMyLoc (.updateRange lat lon)

/-- `protodec_4`, the base station report. -/
def protodec4 (cfg : Config) (rbuffer : Frame) (receivedT : ℤ) (mmsi : ℕ) :
    Option (List Call) := do
  let year ← protodecHenten 40 12 rbuffer
  let month ← protodecHenten 52 4 rbuffer
  let day ← protodecHenten 56 5 rbuffer
  let hour ← protodecHenten 61 5 rbuffer
  let minute ← protodecHenten 66 6 rbuffer
  let second ← protodecHenten 72 6 rbuffer
  let longitude := longitudeOf (← protodecHenten 79 28 rbuffer)
  let longit : FloatExpr := .div (scaled longitude 10000) (.lit 60)
  let latitude := latitudeOf (← protodecHenten 107 27 rbuffer)
  let latit : FloatExpr := .div (scaled latitude 10000) (.lit 60)
  let lat := scaled latitude 600000
  let lon := scaled longitude 600000
  return .printf (.baseStation year month day hour minute second latit longit)
    :: callIf cfg.my (.myoutAisBasestation receivedT mmsi lat lon)
    ++ callIf cfg.cachePositions
      (.cache (.position receivedT (Int32.ofNat mmsi) 0 lat lon 0 (.lit 0) 0 (.lit 0)))
    ++ callIf cfg.haveMyLoc (.updateRange lat lon)

/-- `protodec_18`, the class B position report. -/
def protodec18 (cfg : Config) (rbuffer : Frame) (receivedT : ℤ) (mmsi : ℕ) :
    Option (List Call) := do
  let longitude := longitudeOf (← protodecHenten 57 28 rbuffer)
  let latitude := latitudeOf (← protodecHenten 85 27 rbuffer)
  let course := cUShort (← protodecHenten 112 12 rbuffer)
  let sog := cUShort (← protodecHenten 46 10 rbuffer)
  let rateofturn : ℤ := 0
  let navstat : ℤ := 15
  let heading := cUShort (← protodecHenten 124 9 rbuffer)
  let lat := scaled latitude 600000
  let lon := scaled longitude 600000
  return .printf (.position lat lon (scaled course 10) (scaled sog 10) rateofturn navstat heading)
    :: callIf cfg.my
      (.myoutAisPosition receivedT mmsi lat lon (.ofInt heading) (scaled course 10)
        (scaled sog 10))
    ++ callIf cfg.cachePositions
      (.cache (.position receivedT (Int32.ofNat mmsi) navstat lat lon heading (scaled course 10)
        rateofturn (scaled sog 10)))
    ++ callIf cfg.haveMyLoc (.updateRange lat lon)

/-! ## Static data

Names and callsigns are six-bit text without the trailing blanks. The dimensions go to the
database and the cache one by one and are added up for standard output only. -/

/-- `protodec_5`, static and voyage data. The callsign loop takes six letters. -/
def protodec5 (cfg : Config) (rbuffer : Frame) (receivedT : ℤ) (mmsi : ℕ) :
    Option (List Call) := do
  let imo ← protodecHenten 40 30 rbuffer
  let callsign ← sixbitText 70 6 rbuffer
  let name ← sixbitText 112 20 rbuffer
  let destination ← sixbitText (120 + 106 + 68 + 8) 20 rbuffer
  let shiptype ← protodecHenten 232 8 rbuffer
  let a ← protodecHenten 240 9 rbuffer
  let b ← protodecHenten (240 + 9) 9 rbuffer
  let c := cUChar (← protodecHenten (240 + 9 + 9) 6 rbuffer)
  let d := cUChar (← protodecHenten (240 + 9 + 9 + 6) 6 rbuffer)
  let draught := cUChar (← protodecHenten 294 8 rbuffer)
  return .printf (.vessel name destination shiptype (a + b) (c + d) (scaled draught 10))
    :: callIf cfg.my
      (.myoutAisVesseldata receivedT mmsi name destination (scaled draught 10) a b c d)
    ++ callIf cfg.cachePositions
      (.cache (.vesseldata receivedT (Int32.ofNat mmsi) imo callsign name destination shiptype
        a b c d (.div (.ofInt draught) (.lit 10))))

/-- The destination the class B decoders fill in, `"CLASS B"`. -/
def classBDestination : List UInt8 := [67, 76, 65, 83, 83, 32, 66]

/-- `protodec_19`, the extended class B report. -/
def protodec19 (cfg : Config) (rbuffer : Frame) (receivedT : ℤ) (mmsi : ℕ) :
    Option (List Call) := do
  let name ← sixbitText 143 20 rbuffer
  let shiptype ← protodecHenten 263 8 rbuffer
  let a ← protodecHenten 271 9 rbuffer
  let b ← protodecHenten (271 + 9) 9 rbuffer
  let c := cUChar (← protodecHenten (271 + 9 + 9) 6 rbuffer)
  let d := cUChar (← protodecHenten (271 + 9 + 9 + 6) 6 rbuffer)
  return .printf (.classB name shiptype (a + b) (c + d))
    :: callIf cfg.my (.myoutAisVesselname receivedT mmsi name classBDestination)
    ++ callIf cfg.my (.myoutAisVesseldatab receivedT mmsi a b c d)
    ++ callIf cfg.cachePositions
      (.cache (.vesselname receivedT (Int32.ofNat mmsi) name classBDestination))
    ++ callIf cfg.cachePositions
      (.cache (.vesseldatabb receivedT (Int32.ofNat mmsi) shiptype a b c d))

/-- `protodec_24`, part A. -/
def protodec24PartA (cfg : Config) (rbuffer : Frame) (receivedT : ℤ) (mmsi : ℕ) :
    Option (List Call) := do
  let name ← sixbitText 40 20 rbuffer
  return .printf (.vesselName name)
    :: callIf cfg.my (.myoutAisVesselname receivedT mmsi name classBDestination)
    ++ callIf cfg.cachePositions
      (.cache (.vesselname receivedT (Int32.ofNat mmsi) name classBDestination))

/-- `protodec_24`, part B. The callsign loop takes six letters. -/
def protodec24PartB (cfg : Config) (rbuffer : Frame) (receivedT : ℤ) (mmsi : ℕ) :
    Option (List Call) := do
  let callsign ← sixbitText 90 6 rbuffer
  let shiptype ← protodecHenten 40 8 rbuffer
  let a ← protodecHenten 132 9 rbuffer
  let b ← protodecHenten (132 + 9) 9 rbuffer
  let c := cUChar (← protodecHenten (132 + 9 + 9) 6 rbuffer)
  let d := cUChar (← protodecHenten (132 + 9 + 9 + 6) 6 rbuffer)
  return .printf (.vesselCallsign callsign shiptype (a + b) (c + d))
    :: callIf cfg.my (.myoutAisVesseldatab receivedT mmsi a b c d)
    ++ callIf cfg.cachePositions
      (.cache (.vesseldatab receivedT (Int32.ofNat mmsi) callsign shiptype a b c d))

/-- `protodec_24`: parts A and B of the class B static report. -/
def protodec24 (cfg : Config) (rbuffer : Frame) (receivedT : ℤ) (mmsi : ℕ) :
    Option (List Call) := do
  let partnr ← protodecHenten 38 2 rbuffer
  if partnr = 0 then protodec24PartA cfg rbuffer receivedT mmsi
  else if partnr = 1 then protodec24PartB cfg rbuffer receivedT mmsi
  else return []

/-! ## Binary messages

An application message carries an identifier in front. Only two of the applications are
decoded, and only those of the international code (`appid_dac` 1); of the others the
identifier is printed. -/

/-- `appid_ifm` -/
def appidIfm : ℕ → String
  | 0 => "text-telegram"
  | 1 => "application-ack"
  | 2 => "iai-fi-capab-interrogation"
  | 3 => "iai-capabi-interrogation"
  | 4 => "capability-reply"
  | 11 => "tide-weather"
  | 16 => "vts-targets"
  | 17 => "ship-waypoints"
  | 18 => "advice-of-waypoints"
  | 19 => "extended-ship-data"
  | 20 => "berthing-data"
  | 21 => "weather-obs-report"
  | 22 => "area-notice-bc"
  | 23 => "area-notice-addr"
  | 24 => "extended-ship-static"
  | 25 => "dangerous-cargo-info"
  | 26 => "environmental"
  | 27 => "route-info-bc"
  | 28 => "route-info-addr"
  | 29 => "text-description-bc"
  | 30 => "text-description-addr"
  | 40 => "persons-on-board"
  | _ => "unknown"

/-- `protodec_msg_40`, the number of persons on board. -/
def protodecMsg40 (cfg : Config) (buffer : Frame) (msgStart : ℕ) (receivedT : ℤ) (mmsi : ℕ) :
    Option (List Call) := do
  let peopleOnBoard ← protodecHenten msgStart 13 buffer
  return .printf (.persons peopleOnBoard)
    :: callIf cfg.cachePositions
      (.cache (.vesselPersons receivedT (Int32.ofNat mmsi) peopleOnBoard))

/-- `protodec_msg_11`, the weather report. `msg_start` moves on as each field
is read; the disabled declarations of the source do not move it. -/
def protodecMsg11 (buffer : Frame) (msgStart : ℕ) : Option (List Call) := do
  let latitude ← protodecHenten msgStart 24 buffer
  let msgStart := msgStart + 24
  let longitude ← protodecHenten msgStart 25 buffer
  let msgStart := msgStart + 16
  let windSpeed ← protodecHenten msgStart 7 buffer
  let msgStart := msgStart + 7
  let windGust ← protodecHenten msgStart 7 buffer
  let msgStart := msgStart + 7
  let windDir ← protodecHenten msgStart 9 buffer
  let msgStart := msgStart + 9
  let windGustDir ← protodecHenten msgStart 9 buffer
  let msgStart := msgStart + 9
  let airTemp ← protodecHenten msgStart 11 buffer
  let msgStart := msgStart + 11
  let relHumid ← protodecHenten msgStart 7 buffer
  let msgStart := msgStart + 7
  let dewPoint ← protodecHenten msgStart 10 buffer
  let msgStart := msgStart + 10
  let airPress := (← protodecHenten msgStart 9 buffer) + 800
  let msgStart := msgStart + 9
  let airPressTend ← protodecHenten msgStart 2 buffer
  let msgStart := msgStart + 2
  let horizVisibNm ← protodecHenten msgStart 8 buffer
  let msgStart := msgStart + 8
  let waterLevel ← protodecHenten msgStart 9 buffer
  let msgStart := msgStart + 5
  let waveHeightSignificant ← protodecHenten msgStart 8 buffer
  let msgStart := msgStart + 4
  let waterTemp ← protodecHenten msgStart 10 buffer
  return [.printf (.weather (scaled latitude 60000) (scaled longitude 60000) windSpeed windGust
    windDir windGustDir (.sub (scaled airTemp 10) (.lit 60)) relHumid
    (.sub (scaled dewPoint 10) (.lit 20)) airPress airPressTend (scaled horizVisibNm 10)
    (.sub (scaled waterLevel 10) (.lit 10)) (scaled waveHeightSignificant 10)
    (.sub (scaled waterTemp 10) (.lit 10)))]

/-- `protodec_msg_bin` -/
def protodecMsgBin (cfg : Config) (buffer : Frame) (appidFi msgStart : ℕ) (receivedT : ℤ)
    (mmsi : ℕ) : Option (List Call) :=
  if appidFi = 11 then protodecMsg11 buffer msgStart
  else if appidFi = 40 then protodecMsg40 cfg buffer msgStart receivedT mmsi
  else some []

/-- `protodec_6`, the addressed binary message. -/
def protodec6 (cfg : Config) (rbuffer : Frame) (receivedT : ℤ) (mmsi : ℕ) :
    Option (List Call) := do
  let seq ← protodecHenten 38 2 rbuffer
  let dstMmsi ← protodecHenten 40 30 rbuffer
  let retransmitted ← protodecHenten 70 1 rbuffer
  let appid ← protodecHenten 72 16 rbuffer
  let appidDac ← protodecHenten 72 10 rbuffer
  let appidFi ← protodecHenten 82 6 rbuffer
  let head := Call.printf (.addressed dstMmsi seq retransmitted appid appidDac appidFi)
  if appidDac = 1 then do
    let bin ← protodecMsgBin cfg rbuffer appidFi 88 receivedT mmsi
    return head :: .printf (.appid (appidIfm appidFi)) :: bin
  else return [head]

/-- `protodec_8`, the binary broadcast. -/
def protodec8 (cfg : Config) (rbuffer : Frame) (receivedT : ℤ) (mmsi : ℕ) :
    Option (List Call) := do
  let appid ← protodecHenten 40 16 rbuffer
  let appidDac ← protodecHenten 40 10 rbuffer
  let appidFi ← protodecHenten 50 6 rbuffer
  let head := Call.printf (.broadcast appid appidDac appidFi)
  if appidDac = 1 then do
    let bin ← protodecMsgBin cfg rbuffer appidFi 56 receivedT mmsi
    return head :: .printf (.appid (appidIfm appidFi)) :: bin
  else return [head]

/-! ## Repeated records

Types 7, 13 and 20 are a head and then records of equal length, as many as the frame
holds. These are the only decoders that look at the length of the frame. -/

/-- The loop of `protodec_7_13`: record `i` starts at `pos`, and at most
`left` more records are read. -/
def protodec713Loop (bufferlen : ℕ) (rbuffer : Frame) (left i pos : ℕ) : Option (List Call) :=
  match left with
  | 0 => some []
  | left + 1 =>
    if pos + 32 ≤ bufferlen then do
      let dstMmsi ← protodecHenten pos 30 rbuffer
      let seq ← protodecHenten (pos + 30) 2 rbuffer
      let rest ← protodec713Loop bufferlen rbuffer left (i + 1) (pos + 32)
      return .printf (.ack (i + 1) dstMmsi seq) :: rest
    else some []

/-- `protodec_7_13`, acknowledges. -/
def protodec713 (bufferlen : ℕ) (rbuffer : Frame) : Option (List Call) := do
  let acks ← protodec713Loop bufferlen rbuffer 4 0 40
  return .printf (.ackHeader bufferlen (40 + 32)) :: acks

/-- The loop of `protodec_20`. -/
def protodec20Loop (bufferlen : ℕ) (rbuffer : Frame) (left i pos : ℕ) : Option (List Call) :=
  match left with
  | 0 => some []
  | left + 1 =>
    if pos + 30 < bufferlen then do
      let ofs ← protodecHenten pos 12 rbuffer
      let slots ← protodecHenten (pos + 12) 4 rbuffer
      let timeout ← protodecHenten (pos + 12 + 4) 3 rbuffer
      let incr ← protodecHenten (pos + 12 + 4 + 3) 11 rbuffer
      let rest ← protodec20Loop bufferlen rbuffer left (i + 1) (pos + 30)
      return .printf (.reserve (i + 1) ofs slots timeout incr) :: rest
    else some []

/-- `protodec_20`, data link management. -/
def protodec20 (bufferlen : ℕ) (rbuffer : Frame) : Option (List Call) :=
  protodec20Loop bufferlen rbuffer 4 0 40

/-! ## The dispatch

A type without a decoder is written out as a sentence and not looked at any further. -/

/-- The `switch (type)` of `protodec_getdata`. -/
def messageCalls (cfg : Config) (type bufferlen : ℕ) (rbuffer : Frame) (receivedT : ℤ)
    (mmsi : ℕ) : Option (List Call) :=
  match type with
  | 1 | 2 | 3 => protodecPos cfg rbuffer receivedT mmsi
  | 4 => protodec4 cfg rbuffer receivedT mmsi
  | 5 => protodec5 cfg rbuffer receivedT mmsi
  | 6 => protodec6 cfg rbuffer receivedT mmsi
  | 7 | 13 => protodec713 bufferlen rbuffer
  | 8 => protodec8 cfg rbuffer receivedT mmsi
  | 18 => protodec18 cfg rbuffer receivedT mmsi
  | 19 => protodec19 cfg rbuffer receivedT mmsi
  | 24 => protodec24 cfg rbuffer receivedT mmsi
  | 20 => protodec20 bufferlen rbuffer
  | _ => some []

/-! ## What the decoders call

The calls of a frame are its sentences and then its reports; this is the test that tells
the two apart. -/

/-- Standard output, the database, the cache and the range statistics: what
the message decoders call. -/
def Call.isReport : Call → Bool
  | .getdata .. | .hlog _ | .serialWrite _ | .ipcWrite _ | .myoutNmea .. => false
  | _ => true

/-- A test of a call that may not be made. -/
@[simp] theorem all_callIf (p : Call → Bool) (cond : Bool) (c : Call) :
    (callIf cond c).all p = (!cond || p c) := by
  cases cond <;> simp [callIf]

/-! ## Every decoder stays inside the frame

`rbuffer` has 450 bytes, and the last field of the longest layout ends at bit 424, so no
decoder can be sent outside by a short frame: it reads what is left of the frame before,
or the zeros behind it. One lemma a decoder; the two loops are inductions on the records
left. -/

section InBounds

variable (cfg : Config) (rbuffer : Frame) (receivedT : ℤ) (mmsi : ℕ)

/-- A field that ends inside the 450 bytes is read. -/
theorem henten_frame {frm size : ℕ} (h : frm + size ≤ 450) :
    protodecHenten frm size rbuffer = some (hentenVal frm size rbuffer) :=
  protodecHenten_eq rbuffer h

/-- So is a text. -/
theorem sixbitText_frame {pos len : ℕ} (h : pos + 6 * len ≤ 450) :
    sixbitText pos len rbuffer = some (sixbitVal pos len rbuffer) :=
  sixbitText_eq rbuffer h

theorem protodecPos_isSome : (protodecPos cfg rbuffer receivedT mmsi).isSome := by
  simp [protodecPos, henten_frame]

theorem protodec4_isSome : (protodec4 cfg rbuffer receivedT mmsi).isSome := by
  simp [protodec4, henten_frame]

theorem protodec18_isSome : (protodec18 cfg rbuffer receivedT mmsi).isSome := by
  simp [protodec18, henten_frame]

theorem protodec5_isSome : (protodec5 cfg rbuffer receivedT mmsi).isSome := by
  simp [protodec5, henten_frame, sixbitText_frame]

theorem protodec19_isSome : (protodec19 cfg rbuffer receivedT mmsi).isSome := by
  simp [protodec19, henten_frame, sixbitText_frame]

theorem protodec24_isSome : (protodec24 cfg rbuffer receivedT mmsi).isSome := by
  rw [protodec24, henten_frame rbuffer (by omega)]
  simp only [Option.bind_eq_bind, Option.bind_some]
  split
  · simp [protodec24PartA, sixbitText_frame]
  · split
    · simp [protodec24PartB, henten_frame, sixbitText_frame]
    · rfl

/-- The binary decoders fit at both offsets they are called with. -/
theorem protodecMsgBin_isSome (appidFi : ℕ) {msgStart : ℕ} (h : msgStart ≤ 88) :
    (protodecMsgBin cfg rbuffer appidFi msgStart receivedT mmsi).isSome := by
  unfold protodecMsgBin
  split
  · simp (disch := omega) [protodecMsg11, henten_frame]
  · split
    · simp (disch := omega) [protodecMsg40, henten_frame]
    · rfl

theorem protodec6_isSome : (protodec6 cfg rbuffer receivedT mmsi).isSome := by
  obtain ⟨bin, hbin⟩ := Option.isSome_iff_exists.mp
    (protodecMsgBin_isSome cfg rbuffer receivedT mmsi (hentenVal 82 6 rbuffer) (le_refl 88))
  simp only [protodec6, henten_frame, Option.bind_eq_bind, Option.bind_some, hbin,
    Nat.reduceAdd, Nat.reduceLeDiff]
  split <;> rfl

theorem protodec8_isSome : (protodec8 cfg rbuffer receivedT mmsi).isSome := by
  obtain ⟨bin, hbin⟩ := Option.isSome_iff_exists.mp
    (protodecMsgBin_isSome cfg rbuffer receivedT mmsi (hentenVal 50 6 rbuffer)
      (show 56 ≤ 88 by omega))
  simp only [protodec8, henten_frame, Option.bind_eq_bind, Option.bind_some, hbin,
    Nat.reduceAdd, Nat.reduceLeDiff]
  split <;> rfl

theorem protodec713Loop_isSome {bufferlen : ℕ} (h : bufferlen ≤ 450) (left : ℕ) :
    ∀ i pos, (protodec713Loop bufferlen rbuffer left i pos).isSome := by
  induction left with
  | zero => exact fun _ _ => rfl
  | succ left ih =>
    intro i pos
    obtain ⟨rest, hrest⟩ := Option.isSome_iff_exists.mp (ih (i + 1) (pos + 32))
    rw [protodec713Loop]
    split
    · simp (disch := omega) [henten_frame, hrest]
    · rfl

theorem protodec713_isSome {bufferlen : ℕ} (h : bufferlen ≤ 450) :
    (protodec713 bufferlen rbuffer).isSome := by
  obtain ⟨acks, hacks⟩ := Option.isSome_iff_exists.mp (protodec713Loop_isSome rbuffer h 4 0 40)
  simp [protodec713, hacks]

theorem protodec20Loop_isSome {bufferlen : ℕ} (h : bufferlen ≤ 450) (left : ℕ) :
    ∀ i pos, (protodec20Loop bufferlen rbuffer left i pos).isSome := by
  induction left with
  | zero => exact fun _ _ => rfl
  | succ left ih =>
    intro i pos
    obtain ⟨rest, hrest⟩ := Option.isSome_iff_exists.mp (ih (i + 1) (pos + 30))
    rw [protodec20Loop]
    split
    · simp (disch := omega) [henten_frame, hrest]
    · rfl

/-- No decoder reads outside the frame, whatever the message type and however
short the received frame was. -/
theorem messageCalls_isSome {bufferlen : ℕ} (h : bufferlen ≤ 450) (type : ℕ) :
    (messageCalls cfg type bufferlen rbuffer receivedT mmsi).isSome := by
  unfold messageCalls
  split
  · exact protodecPos_isSome ..
  · exact protodecPos_isSome ..
  · exact protodecPos_isSome ..
  · exact protodec4_isSome ..
  · exact protodec5_isSome ..
  · exact protodec6_isSome ..
  · exact protodec713_isSome rbuffer h
  · exact protodec713_isSome rbuffer h
  · exact protodec8_isSome ..
  · exact protodec18_isSome ..
  · exact protodec19_isSome ..
  · exact protodec24_isSome ..
  · exact protodec20Loop_isSome rbuffer h 4 0 40
  · rfl

end InBounds

/-! ## What the decoders hand on

What the database and the cache are given comes from the fields alone, so every string
among it is six-bit text of the length the layout says. The export to JSON and to SQL
rests on this. -/

/-- The calls of the message decoders: prints, reports of numbers, and reports
of six-bit text. None writes a sentence or opens another frame. -/
inductive MessageCall : Call → Prop
  | printf (r : Report) : MessageCall (.printf r)
  | updateRange (lat lon : FloatExpr) : MessageCall (.updateRange lat lon)
  | myoutAisPosition (t : ℤ) (m : ℕ) (lat lon hdg course sog : FloatExpr) :
      MessageCall (.myoutAisPosition t m lat lon hdg course sog)
  | myoutAisBasestation (t : ℤ) (m : ℕ) (lat lon : FloatExpr) :
      MessageCall (.myoutAisBasestation t m lat lon)
  | myoutAisVesseldata (t : ℤ) (m : ℕ) {name destination : List UInt8} (draught : FloatExpr)
      (a b c d : ℕ) (hname : SixbitText 20 name) (hdestination : SixbitText 20 destination) :
      MessageCall (.myoutAisVesseldata t m name destination draught a b c d)
  | myoutAisVesseldatab (t : ℤ) (m a b c d : ℕ) : MessageCall (.myoutAisVesseldatab t m a b c d)
  | myoutAisVesselname (t : ℤ) (m : ℕ) {name destination : List UInt8}
      (hname : SixbitText 20 name) (hdestination : SixbitText 20 destination) :
      MessageCall (.myoutAisVesselname t m name destination)
  | cachePosition (t : ℤ) (m : Int32) (navstat : ℤ) (lat lon : FloatExpr) (hdg : ℤ)
      (course : FloatExpr) (rateofturn : ℤ) (sog : FloatExpr) :
      MessageCall (.cache (.position t m navstat lat lon hdg course rateofturn sog))
  | cacheVesseldata (t : ℤ) (m : Int32) (imo : ℤ) {callsign name destination : List UInt8}
      (shiptype a b c d : ℤ) (draught : FloatExpr) (hcallsign : SixbitText 6 callsign)
      (hname : SixbitText 20 name) (hdestination : SixbitText 20 destination) :
      MessageCall (.cache
        (.vesseldata t m imo callsign name destination shiptype a b c d draught))
  | cacheVesseldatab (t : ℤ) (m : Int32) {callsign : List UInt8} (shiptype a b c d : ℤ)
      (hcallsign : SixbitText 6 callsign) :
      MessageCall (.cache (.vesseldatab t m callsign shiptype a b c d))
  | cacheVesseldatabb (t : ℤ) (m : Int32) (shiptype a b c d : ℤ) :
      MessageCall (.cache (.vesseldatabb t m shiptype a b c d))
  | cacheVesselname (t : ℤ) (m : Int32) {name destination : List UInt8}
      (hname : SixbitText 20 name) (hdestination : SixbitText 20 destination) :
      MessageCall (.cache (.vesselname t m name destination))
  | cacheVesselPersons (t : ℤ) (m : Int32) (personsOnBoard : ℤ) :
      MessageCall (.cache (.vesselPersons t m personsOnBoard))

attribute [simp] MessageCall.printf MessageCall.updateRange MessageCall.myoutAisPosition
  MessageCall.myoutAisBasestation MessageCall.myoutAisVesseldata MessageCall.myoutAisVesseldatab
  MessageCall.myoutAisVesselname MessageCall.cachePosition MessageCall.cacheVesseldata
  MessageCall.cacheVesseldatab MessageCall.cacheVesseldatabb MessageCall.cacheVesselname
  MessageCall.cacheVesselPersons

/-- What holds of a call that may not be made. -/
theorem forall_mem_callIf {P : Call → Prop} {cond : Bool} {c : Call} :
    (∀ x ∈ callIf cond c, P x) ↔ (cond = true → P c) := by
  cases cond <;> simp [callIf]

/-- Text that was read is six-bit text. -/
theorem sixbitText_text {pos len : ℕ} {rbuffer : Frame} {s : List UInt8}
    (h : sixbitText pos len rbuffer = some s) (hfit : pos + 6 * len ≤ 450) : SixbitText len s := by
  rw [sixbitText_frame rbuffer hfit] at h
  obtain rfl := Option.some.inj h
  exact sixbitVal_text ..

/-- So is the destination that is filled in. -/
theorem classBDestination_text : SixbitText 20 classBDestination := by decide

section MessageCalls

variable {cfg : Config} {rbuffer : Frame} {receivedT : ℤ} {mmsi : ℕ} {calls : List Call}

theorem protodecPos_messageCall (h : protodecPos cfg rbuffer receivedT mmsi = some calls) :
    ∀ c ∈ calls, MessageCall c := by
  simp only [protodecPos, Option.bind_eq_bind, Option.bind_eq_some_iff] at h
  obtain ⟨_, -, _, -, _, -, _, -, _, -, _, -, _, -, h⟩ := h
  obtain rfl := Option.some.inj h
  simp [forall_mem_callIf, or_imp, forall_and]

theorem protodec4_messageCall (h : protodec4 cfg rbuffer receivedT mmsi = some calls) :
    ∀ c ∈ calls, MessageCall c := by
  simp only [protodec4, Option.bind_eq_bind, Option.bind_eq_some_iff] at h
  obtain ⟨_, -, _, -, _, -, _, -, _, -, _, -, _, -, _, -, h⟩ := h
  obtain rfl := Option.some.inj h
  simp [forall_mem_callIf, or_imp, forall_and]

theorem protodec18_messageCall (h : protodec18 cfg rbuffer receivedT mmsi = some calls) :
    ∀ c ∈ calls, MessageCall c := by
  simp only [protodec18, Option.bind_eq_bind, Option.bind_eq_some_iff] at h
  obtain ⟨_, -, _, -, _, -, _, -, _, -, h⟩ := h
  obtain rfl := Option.some.inj h
  simp [forall_mem_callIf, or_imp, forall_and]

theorem protodec5_messageCall (h : protodec5 cfg rbuffer receivedT mmsi = some calls) :
    ∀ c ∈ calls, MessageCall c := by
  simp only [protodec5, Option.bind_eq_bind, Option.bind_eq_some_iff] at h
  obtain ⟨_, -, _, hcallsign, _, hname, _, hdestination, _, -, _, -, _, -, _, -, _, -, _, -, h⟩ := h
  obtain rfl := Option.some.inj h
  simp [forall_mem_callIf, or_imp, forall_and, sixbitText_text hcallsign (by decide),
    sixbitText_text hname (by decide), sixbitText_text hdestination (by decide)]

theorem protodec19_messageCall (h : protodec19 cfg rbuffer receivedT mmsi = some calls) :
    ∀ c ∈ calls, MessageCall c := by
  simp only [protodec19, Option.bind_eq_bind, Option.bind_eq_some_iff] at h
  obtain ⟨_, hname, _, -, _, -, _, -, _, -, _, -, h⟩ := h
  obtain rfl := Option.some.inj h
  simp [forall_mem_callIf, or_imp, forall_and, sixbitText_text hname (by decide),
    classBDestination_text]

theorem protodec24_messageCall (h : protodec24 cfg rbuffer receivedT mmsi = some calls) :
    ∀ c ∈ calls, MessageCall c := by
  simp only [protodec24, Option.bind_eq_bind, Option.bind_eq_some_iff] at h
  obtain ⟨partnr, -, h⟩ := h
  split at h
  · simp only [protodec24PartA, Option.bind_eq_bind, Option.bind_eq_some_iff] at h
    obtain ⟨_, hname, h⟩ := h
    obtain rfl := Option.some.inj h
    simp [forall_mem_callIf, or_imp, forall_and, sixbitText_text hname (by decide),
      classBDestination_text]
  · split at h
    · simp only [protodec24PartB, Option.bind_eq_bind, Option.bind_eq_some_iff] at h
      obtain ⟨_, hcallsign, _, -, _, -, _, -, _, -, _, -, h⟩ := h
      obtain rfl := Option.some.inj h
      simp [forall_mem_callIf, or_imp, forall_and, sixbitText_text hcallsign (by decide)]
    · obtain rfl := Option.some.inj h
      simp

theorem protodecMsgBin_messageCall {appidFi msgStart : ℕ}
    (h : protodecMsgBin cfg rbuffer appidFi msgStart receivedT mmsi = some calls) :
    ∀ c ∈ calls, MessageCall c := by
  rw [protodecMsgBin] at h
  split at h
  · -- fifteen fields are read before the one report is made
    unfold protodecMsg11 at h
    iterate 15 obtain ⟨_, -, h⟩ := Option.bind_eq_some_iff.mp h
    obtain rfl := Option.some.inj h
    simp
  · split at h
    · simp only [protodecMsg40, Option.bind_eq_bind, Option.bind_eq_some_iff] at h
      obtain ⟨_, -, h⟩ := h
      obtain rfl := Option.some.inj h
      simp [forall_mem_callIf, or_imp, forall_and]
    · obtain rfl := Option.some.inj h
      simp

theorem protodec6_messageCall (h : protodec6 cfg rbuffer receivedT mmsi = some calls) :
    ∀ c ∈ calls, MessageCall c := by
  simp only [protodec6, Option.bind_eq_bind, Option.bind_eq_some_iff] at h
  obtain ⟨_, -, _, -, _, -, _, -, _, -, _, -, h⟩ := h
  split at h
  · obtain ⟨bin, hbin, h⟩ := Option.bind_eq_some_iff.mp h
    obtain rfl := Option.some.inj h
    simpa using protodecMsgBin_messageCall hbin
  · obtain rfl := Option.some.inj h
    simp

theorem protodec8_messageCall (h : protodec8 cfg rbuffer receivedT mmsi = some calls) :
    ∀ c ∈ calls, MessageCall c := by
  simp only [protodec8, Option.bind_eq_bind, Option.bind_eq_some_iff] at h
  obtain ⟨_, -, _, -, _, -, h⟩ := h
  split at h
  · obtain ⟨bin, hbin, h⟩ := Option.bind_eq_some_iff.mp h
    obtain rfl := Option.some.inj h
    simpa using protodecMsgBin_messageCall hbin
  · obtain rfl := Option.some.inj h
    simp

theorem protodec713Loop_messageCall {bufferlen left : ℕ} : ∀ {i pos : ℕ} {calls : List Call},
    protodec713Loop bufferlen rbuffer left i pos = some calls → ∀ c ∈ calls, MessageCall c := by
  induction left with
  | zero =>
    intro i pos calls h
    obtain rfl := Option.some.inj h
    simp
  | succ left ih =>
    intro i pos calls h
    rw [protodec713Loop] at h
    split at h
    · simp only [Option.bind_eq_bind, Option.bind_eq_some_iff] at h
      obtain ⟨_, -, _, -, rest, hrest, h⟩ := h
      obtain rfl := Option.some.inj h
      simpa using ih hrest
    · obtain rfl := Option.some.inj h
      simp

theorem protodec713_messageCall {bufferlen : ℕ} (h : protodec713 bufferlen rbuffer = some calls) :
    ∀ c ∈ calls, MessageCall c := by
  obtain ⟨acks, hacks, h⟩ := Option.bind_eq_some_iff.mp h
  obtain rfl := Option.some.inj h
  simpa using protodec713Loop_messageCall hacks

theorem protodec20Loop_messageCall {bufferlen left : ℕ} : ∀ {i pos : ℕ} {calls : List Call},
    protodec20Loop bufferlen rbuffer left i pos = some calls → ∀ c ∈ calls, MessageCall c := by
  induction left with
  | zero =>
    intro i pos calls h
    obtain rfl := Option.some.inj h
    simp
  | succ left ih =>
    intro i pos calls h
    rw [protodec20Loop] at h
    split at h
    · simp only [Option.bind_eq_bind, Option.bind_eq_some_iff] at h
      obtain ⟨_, -, _, -, _, -, _, -, rest, hrest, h⟩ := h
      obtain rfl := Option.some.inj h
      simpa using ih hrest
    · obtain rfl := Option.some.inj h
      simp

/-- Whatever the type is, only calls of these kinds are made. -/
theorem messageCalls_messageCall {type bufferlen : ℕ}
    (h : messageCalls cfg type bufferlen rbuffer receivedT mmsi = some calls) :
    ∀ c ∈ calls, MessageCall c := by
  unfold messageCalls at h
  split at h
  · exact protodecPos_messageCall h
  · exact protodecPos_messageCall h
  · exact protodecPos_messageCall h
  · exact protodec4_messageCall h
  · exact protodec5_messageCall h
  · exact protodec6_messageCall h
  · exact protodec713_messageCall h
  · exact protodec713_messageCall h
  · exact protodec8_messageCall h
  · exact protodec18_messageCall h
  · exact protodec19_messageCall h
  · exact protodec24_messageCall h
  · exact protodec20Loop_messageCall h
  · obtain rfl := Option.some.inj h
    simp

/-- The message decoders only report. -/
theorem messageCalls_reports {type bufferlen : ℕ}
    (h : messageCalls cfg type bufferlen rbuffer receivedT mmsi = some calls) :
    calls.all Call.isReport := by
  rw [List.all_eq_true]
  intro c hc
  cases messageCalls_messageCall h c hc <;> rfl

end MessageCalls

end Gnuais
