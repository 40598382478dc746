import Gnuais.Received

/-!
# Position reports, sent and decoded

Class A vessels (types 1, 2 and 3), base stations (type 4) and class B vessels
(type 18) send their position in three layouts. For each there is the message
with its fields, and what it says; the decoder is right when its calls report
just that.

`protodec_4` and `protodec_18` are right on every message
(`station_classB_recovered`). `protodec_pos` takes the navigational status for
two bits wide instead of four, and the rate of turn from where the status ends
then; all the rest it reads right (`position_report_read`). So it is right on
just the messages in which both are zero (`position_report_recovered_iff`).
-/

namespace Gnuais

open Bits Layout

/-! ## Signed fields

The source tests the sign bit and sets the bits above the field. This makes a number in
two's complement of it. -/

/-- A longitude is read as the number in two's complement. -/
theorem longitudeOf_toNat (v : BitVec 28) : longitudeOf v.toNat = v.toInt := by
  have hlt := v.isLt
  rw [longitudeOf_eq hlt, BitVec.toInt_eq_toNat_cond]
  split <;> split <;> omega

/-- A latitude is read as the number in two's complement. -/
theorem latitudeOf_toNat (v : BitVec 27) : latitudeOf v.toNat = v.toInt := by
  have hlt := v.isLt
  rw [latitudeOf_eq hlt, BitVec.toInt_eq_toNat_cond]
  split <;> split <;> omega

/-- A field of at most sixteen bits fits an `unsigned short`. -/
theorem cUShort_toNat {w : ℕ} (hw : w ≤ 16) (v : BitVec w) : cUShort v.toNat = v.toNat :=
  Nat.mod_eq_of_lt (lt_of_lt_of_le v.isLt (Nat.pow_le_pow_right (by decide) hw))

/-- A small number is a `char` that is not negative. -/
theorem cChar_of_lt {x : ℕ} (h : x < 128) : cChar x = x := by
  unfold cChar
  exact Int.bmod_eq_of_le (by omega) (by omega)

/-! ## What is reported

A reading is the values that the calls get, before they are scaled. The calls of a report
are a function of it, and different readings give different calls; so "the calls report
what was sent" can be said about readings. -/

/-- What a vessel's position report says. -/
structure PositionReading where
  /-- the status and the rate of turn, which the decoder gets wrong -/
  navstat : ℤ
  rateofturn : ℤ
  /-- in tenths of a knot -/
  sog : ℕ
  /-- in 1/10000 minute, as the latitude -/
  longitude : ℤ
  latitude : ℤ
  /-- in tenths of a degree -/
  course : ℕ
  heading : ℕ
  deriving DecidableEq

/-- The calls that report a vessel's position. -/
def positionCalls (cfg : Config) (receivedT : ℤ) (mmsi : ℕ) (r : PositionReading) : List Call :=
  let lat := scaled r.latitude 600000
  let lon := scaled r.longitude 600000
  .printf (.position lat lon (scaled r.course 10) (scaled r.sog 10) r.rateofturn r.navstat
      r.heading)
    :: callIf cfg.my
      (.myoutAisPosition receivedT mmsi lat lon (.ofInt r.heading) (scaled r.course 10)
        (scaled r.sog 10))
    ++ callIf cfg.cachePositions
      (.cache (.position receivedT (Int32.ofNat mmsi) r.navstat lat lon r.heading
        (scaled r.course 10) r.rateofturn (scaled r.sog 10)))
    ++ callIf cfg.haveMyLoc (.updateRange lat lon)

/-- Different readings are reported differently. -/
theorem positionCalls_inj {cfg : Config} {receivedT : ℤ} {mmsi : ℕ} {r r' : PositionReading} :
    positionCalls cfg receivedT mmsi r = positionCalls cfg receivedT mmsi r' ↔ r = r' := by
  constructor
  · intro h
    have hprint := congrArg List.head? h
    obtain ⟨navstat, rateofturn, sog, longitude, latitude, course, heading⟩ := r
    obtain ⟨navstat', rateofturn', sog', longitude', latitude', course', heading'⟩ := r'
    simp only [positionCalls, List.cons_append, List.head?_cons, Option.some.injEq,
      Call.printf.injEq, Report.position.injEq, scaled, FloatExpr.div.injEq,
      FloatExpr.ofInt.injEq, Nat.cast_inj, and_true] at hprint
    obtain ⟨rfl, rfl, rfl, rfl, rfl, rfl, rfl⟩ := hprint
    rfl
  · rintro rfl
    rfl

/-- What a base station's report says. -/
structure StationReading where
  /-- the time as the station has it, in UTC -/
  year : ℕ
  month : ℕ
  day : ℕ
  hour : ℕ
  minute : ℕ
  second : ℕ
  /-- in 1/10000 minute, as the latitude -/
  longitude : ℤ
  latitude : ℤ
  deriving DecidableEq

/-- The calls that report a base station. -/
def stationCalls (cfg : Config) (receivedT : ℤ) (mmsi : ℕ) (r : StationReading) : List Call :=
  let lat := scaled r.latitude 600000
  let lon := scaled r.longitude 600000
  .printf (.baseStation r.year r.month r.day r.hour r.minute r.second
      (.div (scaled r.latitude 10000) (.lit 60)) (.div (scaled r.longitude 10000) (.lit 60)))
    :: callIf cfg.my (.myoutAisBasestation receivedT mmsi lat lon)
    ++ callIf cfg.cachePositions
      (.cache (.position receivedT (Int32.ofNat mmsi) 0 lat lon 0 (.lit 0) 0 (.lit 0)))
    ++ callIf cfg.haveMyLoc (.updateRange lat lon)

/-! ## The messages

The fields of each layout in their order, with their widths. What is behind the last field
that is read is left out. -/

/-- A position report of a class A vessel, message types 1, 2 and 3. -/
structure PositionReport where
  type : BitVec 6
  /-- the three types have one layout -/
  isPosition : type = 1 ∨ type = 2 ∨ type = 3
  repeatIndicator : BitVec 2
  mmsi : BitVec 30
  /-- four bits, of which the decoder reads two -/
  status : BitVec 4
  /-- it starts behind the status -/
  rateOfTurn : BitVec 8
  speed : BitVec 10
  /-- no decoder reads it -/
  accuracy : BitVec 1
  /-- in two's complement, as the latitude -/
  longitude : BitVec 28
  latitude : BitVec 27
  course : BitVec 12
  heading : BitVec 9

/-- Its fields in their order. -/
def PositionReport.layout (m : PositionReport) : List Field :=
  [.number m.type, .number m.repeatIndicator, .number m.mmsi, .number m.status,
    .number m.rateOfTurn, .number m.speed, .number m.accuracy, .number m.longitude,
    .number m.latitude, .number m.course, .number m.heading]

/-- What it says. -/
def PositionReport.sent (m : PositionReport) : PositionReading where
  navstat := m.status.toNat
  rateofturn := m.rateOfTurn.toInt
  sog := m.speed.toNat
  longitude := m.longitude.toInt
  latitude := m.latitude.toInt
  course := m.course.toNat
  heading := m.heading.toNat

/-- A report of a base station, message type 4. -/
structure StationReport where
  repeatIndicator : BitVec 2
  mmsi : BitVec 30
  /-- fourteen bits, from which the decoder takes twelve -/
  year : BitVec 14
  month : BitVec 4
  day : BitVec 5
  hour : BitVec 5
  minute : BitVec 6
  second : BitVec 6
  accuracy : BitVec 1
  longitude : BitVec 28
  latitude : BitVec 27

/-- Its fields in their order. -/
def StationReport.layout (m : StationReport) : List Field :=
  [.number 4#6, .number m.repeatIndicator, .number m.mmsi, .number m.year, .number m.month,
    .number m.day, .number m.hour, .number m.minute, .number m.second, .number m.accuracy,
    .number m.longitude, .number m.latitude]

/-- What it says; of the year only the low twelve bits are read. -/
def StationReport.sent (m : StationReport) : StationReading where
  year := m.year.toNat % 2 ^ 12
  month := m.month.toNat
  day := m.day.toNat
  hour := m.hour.toNat
  minute := m.minute.toNat
  second := m.second.toNat
  longitude := m.longitude.toInt
  latitude := m.latitude.toInt

/-- A position report of a class B vessel, message type 18. -/
structure ClassBReport where
  repeatIndicator : BitVec 2
  mmsi : BitVec 30
  /-- class A vessels have the status and the rate of turn here -/
  reserved : BitVec 8
  speed : BitVec 10
  accuracy : BitVec 1
  longitude : BitVec 28
  latitude : BitVec 27
  course : BitVec 12
  heading : BitVec 9

/-- Its fields in their order. -/
def ClassBReport.layout (m : ClassBReport) : List Field :=
  [.number 18#6, .number m.repeatIndicator, .number m.mmsi, .number m.reserved, .number m.speed,
    .number m.accuracy, .number m.longitude, .number m.latitude, .number m.course,
    .number m.heading]

/-- What it says. Class B vessels send no status and no rate of turn; the decoder
fills in 15, "not defined", and 0. -/
def ClassBReport.sent (m : ClassBReport) : PositionReading where
  navstat := 15
  rateofturn := 0
  sog := m.speed.toNat
  longitude := m.longitude.toInt
  latitude := m.latitude.toInt
  course := m.course.toNat
  heading := m.heading.toNat

/-! ## What is read

One lemma a decoder: it reads the fields of its layout, wherever they are. -/

/-- What `protodec_pos` reads: two bits of the status, and the rate of turn from
behind them. -/
def PositionReport.read (m : PositionReport) : PositionReading :=
  { m.sent with
    navstat := (m.status.toNat / 4 : ℕ)
    rateofturn := cChar (m.status.toNat % 4 * 64 + m.rateOfTurn.toNat / 4) }

/-- The first half of the status. -/
theorem PositionReport.read_navstat (m : PositionReport) :
    m.read.navstat = (m.status.toNat / 4 : ℕ) := by
  simp only [PositionReport.read]

/-- The second half of the status, and the first bits of the rate of turn. -/
theorem PositionReport.read_rateofturn (m : PositionReport) :
    m.read.rateofturn = cChar (m.status.toNat % 4 * 64 + m.rateOfTurn.toNat / 4) := by
  simp only [PositionReport.read]

section Read

variable (cfg : Config) (receivedT : ℤ) (mmsi : ℕ) {rbuffer : Frame}

/-- Types 1, 2 and 3. -/
theorem protodecPos_layout (m : PositionReport) (hholds : HoldsBits rbuffer 0 (pack m.layout)) :
    protodecPos cfg rbuffer receivedT mmsi = some (positionCalls cfg receivedT mmsi m.read) := by
  have hnavstat : protodecHenten 38 2 rbuffer = some (m.status.toNat / 2 ^ 2) :=
    henten_high (i := 3) hholds rfl (by decide) (by simp [PositionReport.layout])
  have hrot : protodecHenten (38 + 2) 8 rbuffer =
      some (m.status.toNat % 2 ^ 2 * 2 ^ 6 + m.rateOfTurn.toNat / 2 ^ 2) :=
    henten_two (i := 3) (j := 2) (k := 6) hholds rfl rfl (by decide) (by decide) (by simp [PositionReport.layout]) rfl
  have hsog : protodecHenten 50 10 rbuffer = some m.speed.toNat :=
    henten_number (i := 5) hholds rfl (by simp [PositionReport.layout])
  have hlon : protodecHenten 61 28 rbuffer = some m.longitude.toNat :=
    henten_number (i := 7) hholds rfl (by simp [PositionReport.layout])
  have hlat : protodecHenten (38 + 22 + 29) 27 rbuffer = some m.latitude.toNat :=
    henten_number (i := 8) hholds rfl (by simp [PositionReport.layout])
  have hcourse : protodecHenten (38 + 22 + 28 + 28) 12 rbuffer = some m.course.toNat :=
    henten_number (i := 9) hholds rfl (by simp [PositionReport.layout])
  have hheading : protodecHenten (38 + 22 + 28 + 28 + 12) 9 rbuffer = some m.heading.toNat :=
    henten_number (i := 10) hholds rfl (by simp [PositionReport.layout])
  have hlt := m.status.isLt
  have hchar : cChar (m.status.toNat / 4) = ((m.status.toNat / 4 : ℕ) : ℤ) :=
    cChar_of_lt (by omega)
  simp only [Nat.reducePow] at hnavstat hrot
  rw [protodecPos, hnavstat, hrot, hsog, hlon, hlat, hcourse, hheading]
  simp only [Option.bind_eq_bind, Option.bind_some, Option.pure_def, longitudeOf_toNat,
    latitudeOf_toNat, cUShort_toNat (show 12 ≤ 16 by decide), cUShort_toNat (show 10 ≤ 16 by decide),
    cUShort_toNat (show 9 ≤ 16 by decide), hchar]
  simp only [positionCalls, PositionReport.read, PositionReport.sent]

/-- Type 4. -/
theorem protodec4_layout (m : StationReport) (hholds : HoldsBits rbuffer 0 (pack m.layout)) :
    protodec4 cfg rbuffer receivedT mmsi = some (stationCalls cfg receivedT mmsi m.sent) := by
  have hyear : protodecHenten 40 12 rbuffer = some (m.year.toNat % 2 ^ 12) :=
    henten_low (i := 3) (j := 2) hholds rfl (by decide) (by simp [StationReport.layout]) rfl
  have hmonth : protodecHenten 52 4 rbuffer = some m.month.toNat :=
    henten_number (i := 4) hholds rfl (by simp [StationReport.layout])
  have hday : protodecHenten 56 5 rbuffer = some m.day.toNat :=
    henten_number (i := 5) hholds rfl (by simp [StationReport.layout])
  have hhour : protodecHenten 61 5 rbuffer = some m.hour.toNat :=
    henten_number (i := 6) hholds rfl (by simp [StationReport.layout])
  have hminute : protodecHenten 66 6 rbuffer = some m.minute.toNat :=
    henten_number (i := 7) hholds rfl (by simp [StationReport.layout])
  have hsecond : protodecHenten 72 6 rbuffer = some m.second.toNat :=
    henten_number (i := 8) hholds rfl (by simp [StationReport.layout])
  have hlon : protodecHenten 79 28 rbuffer = some m.longitude.toNat :=
    henten_number (i := 10) hholds rfl (by simp [StationReport.layout])
  have hlat : protodecHenten 107 27 rbuffer = some m.latitude.toNat :=
    henten_number (i := 11) hholds rfl (by simp [StationReport.layout])
  rw [protodec4, hyear, hmonth, hday, hhour, hminute, hsecond, hlon, hlat]
  simp only [Option.bind_eq_bind, Option.bind_some, Option.pure_def, longitudeOf_toNat,
    latitudeOf_toNat]
  rfl

/-- Type 18. -/
theorem protodec18_layout (m : ClassBReport) (hholds : HoldsBits rbuffer 0 (pack m.layout)) :
    protodec18 cfg rbuffer receivedT mmsi = some (positionCalls cfg receivedT mmsi m.sent) := by
  have hsog : protodecHenten 46 10 rbuffer = some m.speed.toNat :=
    henten_number (i := 4) hholds rfl (by simp [ClassBReport.layout])
  have hlon : protodecHenten 57 28 rbuffer = some m.longitude.toNat :=
    henten_number (i := 6) hholds rfl (by simp [ClassBReport.layout])
  have hlat : protodecHenten 85 27 rbuffer = some m.latitude.toNat :=
    henten_number (i := 7) hholds rfl (by simp [ClassBReport.layout])
  have hcourse : protodecHenten 112 12 rbuffer = some m.course.toNat :=
    henten_number (i := 8) hholds rfl (by simp [ClassBReport.layout])
  have hheading : protodecHenten 124 9 rbuffer = some m.heading.toNat :=
    henten_number (i := 9) hholds rfl (by simp [ClassBReport.layout])
  rw [protodec18, hsog, hlon, hlat, hcourse, hheading]
  simp only [Option.bind_eq_bind, Option.bind_some, Option.pure_def, longitudeOf_toNat,
    latitudeOf_toNat, cUShort_toNat (show 12 ≤ 16 by decide), cUShort_toNat (show 10 ≤ 16 by decide),
    cUShort_toNat (show 9 ≤ 16 by decide)]
  rfl

end Read

/-! ## What is recovered

A report is recovered if what is read is what was sent. For two of the decoders it always
is, by the lemmas above. -/

section Recovered

variable (cfg : Config) (receivedT : ℤ) (d : DemodState) (bufferlen : ℕ)

/-- What is reported of a class A position report. -/
theorem position_report_iff (m : PositionReport) (hrec : Received d bufferlen (pack m.layout))
    (hskip : cfg.skipType m.type.toNat = false) {expected : List Call} :
    Reported cfg receivedT bufferlen d m.type.toNat m.mmsi.toNat expected ↔
      positionCalls cfg receivedT m.mmsi.toNat m.read = expected := by
  refine hrec.reported_layout_iff ?_ hskip fun rbuffer hholds => ?_
  · rcases m.isPosition with h | h | h <;> rw [h] <;> decide
  · have hpos := protodecPos_layout cfg receivedT m.mmsi.toNat m hholds
    rcases m.isPosition with h | h | h <;> rw [h] <;> exact hpos

/-- Speed, position, course and heading are always recovered. -/
theorem position_report_read (m : PositionReport) (hrec : Received d bufferlen (pack m.layout))
    (hskip : cfg.skipType m.type.toNat = false) :
    Reported cfg receivedT bufferlen d m.type.toNat m.mmsi.toNat
      (positionCalls cfg receivedT m.mmsi.toNat m.read) :=
  (position_report_iff cfg receivedT d bufferlen m hrec hskip).mpr rfl

/-- The status and the rate of turn that are read are the ones that were sent
when both are zero. -/
theorem PositionReport.read_eq_sent_iff (m : PositionReport) :
    m.read = m.sent ↔ m.status = 0 ∧ m.rateOfTurn = 0 := by
  have hstatus := m.status.isLt
  have hrot := m.rateOfTurn.isLt
  constructor
  · intro h
    have hnavstat : m.read.navstat = m.status.toNat := congrArg PositionReading.navstat h
    have hturn : m.read.rateofturn = m.rateOfTurn.toInt := congrArg PositionReading.rateofturn h
    rw [m.read_navstat] at hnavstat
    rw [m.read_rateofturn] at hturn
    have hzero : m.status.toNat = 0 := by omega
    have hchar : cChar (m.status.toNat % 4 * 64 + m.rateOfTurn.toNat / 4) =
        ((m.rateOfTurn.toNat / 4 : ℕ) : ℤ) := by
      rw [hzero, Nat.zero_mod, Nat.zero_mul, Nat.zero_add]
      exact cChar_of_lt (by omega)
    rw [hchar, BitVec.toInt_eq_toNat_cond] at hturn
    refine ⟨BitVec.eq_of_toNat_eq hzero, BitVec.eq_of_toNat_eq ?_⟩
    change m.rateOfTurn.toNat = 0
    split at hturn <;> omega
  · rintro ⟨hstatus, hturn⟩
    have hchar : cChar 0 = 0 := rfl
    simp [PositionReport.read, PositionReport.sent, hstatus, hturn, hchar]

/-- A class A position report is reported with what was sent when its status and its rate
of turn are zero, and in no other case. All other fields are always right
(`position_report_read`). -/
theorem position_report_recovered_iff (m : PositionReport)
    (hrec : Received d bufferlen (pack m.layout)) (hskip : cfg.skipType m.type.toNat = false) :
    Reported cfg receivedT bufferlen d m.type.toNat m.mmsi.toNat
        (positionCalls cfg receivedT m.mmsi.toNat m.sent) ↔
      m.status = 0 ∧ m.rateOfTurn = 0 := by
  rw [position_report_iff cfg receivedT d bufferlen m hrec hskip, positionCalls_inj,
    m.read_eq_sent_iff]

/-- Reports of base stations and of class B vessels are reported with what was sent, on
either side of the equator and of the meridian. It holds for every value of every field,
the ones that stand for "not available" among them. -/
theorem station_classB_recovered :
    (∀ m : StationReport, Received d bufferlen (pack m.layout) → cfg.skipType 4 = false →
      Reported cfg receivedT bufferlen d 4 m.mmsi.toNat
        (stationCalls cfg receivedT m.mmsi.toNat m.sent)) ∧
    (∀ m : ClassBReport, Received d bufferlen (pack m.layout) → cfg.skipType 18 = false →
      Reported cfg receivedT bufferlen d 18 m.mmsi.toNat
        (positionCalls cfg receivedT m.mmsi.toNat m.sent)) := by
  constructor
  · intro m hrec hskip
    refine (hrec.reported_layout_iff (by decide) hskip fun rbuffer hholds => ?_).mpr rfl
    exact protodec4_layout cfg receivedT m.mmsi.toNat m hholds
  · intro m hrec hskip
    refine (hrec.reported_layout_iff (by decide) hskip fun rbuffer hholds => ?_).mpr
      rfl
    exact protodec18_layout cfg receivedT m.mmsi.toNat m hholds

end Recovered

/-! ## Instances

Positions on both sides of the equator and of the meridian, so that the signs are tried,
and a status that goes wrong. -/

/-- A base station just south of the equator and west of the meridian. -/
def southWest : StationReport where
  repeatIndicator := 0
  mmsi := 2301234
  year := 2010
  month := 12
  day := 31
  hour := 23
  minute := 59
  second := 58
  accuracy := 0
  longitude := BitVec.ofInt 28 (-1)
  latitude := BitVec.ofInt 27 (-1)

/-- A class B vessel at the far end of both scales. -/
def farCorner : ClassBReport where
  repeatIndicator := 0
  mmsi := 230012345
  reserved := 0
  speed := 1023
  accuracy := 0
  longitude := BitVec.intMin 28
  latitude := BitVec.intMin 27
  course := 3600
  heading := 511

theorem southWest_received :
    Received (decoding (pack southWest.layout)) 168 (pack southWest.layout) :=
  decoding_received (by rw [length_pack]; decide) (by decide)

theorem farCorner_received :
    Received (decoding (pack farCorner.layout)) 168 (pack farCorner.layout) :=
  decoding_received (by rw [length_pack]; decide) (by decide)

theorem station_classB_recovered_south_west :
    Reported .silent 0 168 (decoding (pack southWest.layout)) 4 southWest.mmsi.toNat
      (stationCalls .silent 0 southWest.mmsi.toNat ⟨2010, 12, 31, 23, 59, 58, -1, -1⟩) ∧
    Reported .silent 0 168 (decoding (pack farCorner.layout)) 18 farCorner.mmsi.toNat
      (positionCalls .silent 0 farCorner.mmsi.toNat
        ⟨15, 0, 1023, -134217728, -67108864, 3600, 511⟩) := by
  have hsouth : southWest.sent = ⟨2010, 12, 31, 23, 59, 58, -1, -1⟩ := by decide
  have hcorner : farCorner.sent = ⟨15, 0, 1023, -134217728, -67108864, 3600, 511⟩ := by decide
  have hstation := (station_classB_recovered .silent 0 _ 168).1 southWest southWest_received rfl
  have hclassB := (station_classB_recovered .silent 0 _ 168).2 farCorner farCorner_received rfl
  rw [hsouth] at hstation
  rw [hcorner] at hclassB
  exact ⟨hstation, hclassB⟩

/-- A vessel that is moored. -/
def moored : PositionReport where
  type := 1
  isPosition := .inl rfl
  repeatIndicator := 0
  mmsi := 230012345
  status := 5
  rateOfTurn := 0
  speed := 0
  accuracy := 1
  longitude := BitVec.ofInt 28 (-60)
  latitude := 36000000
  course := 900
  heading := 91

theorem moored_received : Received (decoding (pack moored.layout)) 168 (pack moored.layout) :=
  decoding_received (by rw [length_pack]; decide) (by decide)

theorem position_report_recovered_iff_moored :
    Reported .silent 0 168 (decoding (pack moored.layout)) 1 230012345
        (positionCalls .silent 0 230012345 moored.sent) ↔
      moored.status = 0 ∧ moored.rateOfTurn = 0 :=
  position_report_recovered_iff .silent 0 _ 168 moored moored_received rfl

/-- Its status comes out as 1, "at anchor", and it turns. -/
theorem moored_misread : Received (decoding (pack moored.layout)) 168 (pack moored.layout) ∧
    ¬ Reported .silent 0 168 (decoding (pack moored.layout)) 1 230012345
      (positionCalls .silent 0 230012345 moored.sent) := by
  refine ⟨moored_received, fun h => ?_⟩
  have hread := (position_report_iff .silent 0 _ 168 moored moored_received rfl).mp h
  have hzero := moored.read_eq_sent_iff.mp (positionCalls_inj.mp hread)
  exact absurd hzero.1 (by decide)

end Gnuais
