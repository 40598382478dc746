import Gnuais.Received

/-!
# The weather report and its field table

`protodec_msg_11` lists the fields of a weather report in their order, with
their widths, and moves `msg_start` over each. Some are read into no variable and
stand in comments, and with them the steps over them are gone.

So after the longitude every field is read too early: the wind up to the water
level 25 bits, the wave height 92 and the water temperature 138. The right values
come out when the bits that are read happen to be those of the field, and in no
other case (`weather_report_iff`).
-/

namespace Gnuais

open Buffer Bits Layout

/-! ## The table

The widths are those of the field table in the source, the lines in comments included.
Nothing follows the last field. -/

/-- A weather report with the fields of the table, the disabled ones among
them. -/
structure WeatherReport where
  /-- the position is read where it is -/
  latitude : BitVec 24
  longitude : BitVec 25
  /-- nothing reads it -/
  datetime : BitVec 16
  /-- from here to the water level, 25 bits too early -/
  windSpeed : BitVec 7
  windGust : BitVec 7
  windDir : BitVec 9
  windGustDir : BitVec 9
  airTemp : BitVec 11
  relHumid : BitVec 7
  dewPoint : BitVec 10
  airPress : BitVec 9
  airPressTend : BitVec 2
  horizVisibNm : BitVec 8
  waterLevel : BitVec 9
  waterTrend : BitVec 2
  surfaceCurrentSpeed : BitVec 8
  surfaceCurrentDir : BitVec 9
  d1CurrentSpeed : BitVec 8
  d1CurrentDir : BitVec 9
  d1CurrentDepth : BitVec 5
  d2CurrentSpeed : BitVec 8
  d2CurrentDir : BitVec 9
  d2CurrentDepth : BitVec 5
  /-- 92 bits too early -/
  waveHeightSignificant : BitVec 8
  wavePeriod : BitVec 6
  waveDir : BitVec 9
  swellHeight : BitVec 8
  swellPeriod : BitVec 6
  swellDir : BitVec 9
  seaState : BitVec 4
  /-- 138 bits too early -/
  waterTemp : BitVec 10

/-- Its fields in their order. -/
def WeatherReport.layout (m : WeatherReport) : List Field :=
  [.number m.latitude, .number m.longitude, .number m.datetime, .number m.windSpeed,
    .number m.windGust, .number m.windDir, .number m.windGustDir, .number m.airTemp,
    .number m.relHumid, .number m.dewPoint, .number m.airPress, .number m.airPressTend,
    .number m.horizVisibNm, .number m.waterLevel, .number m.waterTrend,
    .number m.surfaceCurrentSpeed, .number m.surfaceCurrentDir, .number m.d1CurrentSpeed,
    .number m.d1CurrentDir, .number m.d1CurrentDepth, .number m.d2CurrentSpeed,
    .number m.d2CurrentDir, .number m.d2CurrentDepth, .number m.waveHeightSignificant,
    .number m.wavePeriod, .number m.waveDir, .number m.swellHeight, .number m.swellPeriod,
    .number m.swellDir, .number m.seaState, .number m.waterTemp]

theorem WeatherReport.length_pack (m : WeatherReport) : (pack m.layout).length = 276 := by
  rw [Layout.length_pack]
  simp [WeatherReport.layout]

/-! ## What is reported

Only some of the fields are read into variables, and those are printed. -/

/-- The values of the variables of `protodec_msg_11`; the pressure is less by
800. -/
structure WeatherReading where
  /-- the position of the station -/
  latitude : ℕ
  longitude : ℕ
  /-- the fields as they are in the message, but for the pressure -/
  windSpeed : ℕ
  windGust : ℕ
  windDir : ℕ
  windGustDir : ℕ
  airTemp : ℕ
  relHumid : ℕ
  dewPoint : ℕ
  airPress : ℕ
  airPressTend : ℕ
  horizVisibNm : ℕ
  waterLevel : ℕ
  waveHeightSignificant : ℕ
  waterTemp : ℕ

/-- What is printed of them. -/
def weatherPrint (r : WeatherReading) : Report :=
  .weather (scaled r.latitude 60000) (scaled r.longitude 60000) r.windSpeed r.windGust r.windDir
    r.windGustDir (.sub (scaled r.airTemp 10) (.lit 60)) r.relHumid
    (.sub (scaled r.dewPoint 10) (.lit 20)) (r.airPress + 800) r.airPressTend
    (scaled r.horizVisibNm 10) (.sub (scaled r.waterLevel 10) (.lit 10))
    (scaled r.waveHeightSignificant 10) (.sub (scaled r.waterTemp 10) (.lit 10))

/-- Different readings are printed differently. -/
theorem weatherPrint_inj {r r' : WeatherReading} : weatherPrint r = weatherPrint r' ↔ r = r' := by
  constructor
  · intro h
    cases r
    cases r'
    simp only [weatherPrint, Report.weather.injEq, scaled, FloatExpr.div.injEq,
      FloatExpr.sub.injEq, FloatExpr.ofInt.injEq, Nat.cast_inj, and_true,
      Nat.add_right_cancel_iff] at h
    simp only [WeatherReading.mk.injEq]
    exact h
  · rintro rfl
    rfl

/-- What was packed. -/
def WeatherReport.sent (m : WeatherReport) : WeatherReading where
  latitude := m.latitude.toNat
  longitude := m.longitude.toNat
  windSpeed := m.windSpeed.toNat
  windGust := m.windGust.toNat
  windDir := m.windDir.toNat
  windGustDir := m.windGustDir.toNat
  airTemp := m.airTemp.toNat
  relHumid := m.relHumid.toNat
  dewPoint := m.dewPoint.toNat
  airPress := m.airPress.toNat
  airPressTend := m.airPressTend.toNat
  horizVisibNm := m.horizVisibNm.toNat
  waterLevel := m.waterLevel.toNat
  waveHeightSignificant := m.waveHeightSignificant.toNat
  waterTemp := m.waterTemp.toNat

/-- The values in some bits when the fields from the wind speed to the water level
start at `wind`, the wave height at `wave` and the water temperature at
`water`. -/
def weatherAt (p : List Bool) (wind wave water : ℕ) : WeatherReading where
  latitude := field p 0 24
  longitude := field p 24 25
  windSpeed := field p wind 7
  windGust := field p (wind + 7) 7
  windDir := field p (wind + 14) 9
  windGustDir := field p (wind + 23) 9
  airTemp := field p (wind + 32) 11
  relHumid := field p (wind + 43) 7
  dewPoint := field p (wind + 50) 10
  airPress := field p (wind + 60) 9
  airPressTend := field p (wind + 69) 2
  horizVisibNm := field p (wind + 71) 8
  waterLevel := field p (wind + 79) 9
  waveHeightSignificant := field p wave 8
  waterTemp := field p water 10

/-! ## What is read

The steps of the decoder are added up once. Where a field is read then depends on nothing
in the message. -/

/-- The steps of `protodec_msg_11` lead to fields at 40, 124 and 128. -/
theorem protodecMsg11_reads {frame : Frame} {start : ℕ} {p : List Bool}
    (hholds : HoldsBits frame start p) (hlen : 138 ≤ p.length) :
    protodecMsg11 frame start = some [.printf (weatherPrint (weatherAt p 40 124 128))] := by
  have hread : ∀ {pos len : ℕ}, pos + len ≤ 138 →
      protodecHenten (start + pos) len frame = some (field p pos len) :=
    fun h => hholds.henten (h.trans hlen)
  have hfirst : protodecHenten start 24 frame = some (field p 0 24) :=
    hread (show 0 + 24 ≤ 138 by decide)
  simp (disch := decide) only [protodecMsg11, Nat.add_assoc, Nat.reduceAdd, hfirst, hread,
    Option.bind_eq_bind, Option.bind_some, Option.pure_def]
  rfl

/-- The fields of the table are at 65, 216 and 266. -/
theorem WeatherReport.sent_eq (m : WeatherReport) :
    m.sent = weatherAt (pack m.layout) 65 216 266 := by
  have hfield : ∀ {i w pos : ℕ} {v : BitVec w}, m.layout[i]? = some (.number v) →
      width (m.layout.take i) = pos → v.toNat = field (pack m.layout) pos w :=
    fun hf hpos => (field_number hf hpos).symm
  rw [WeatherReport.sent, weatherAt, WeatherReading.mk.injEq]
  refine ⟨hfield (i := 0) rfl ?_, hfield (i := 1) rfl ?_, hfield (i := 3) rfl ?_,
    hfield (i := 4) rfl ?_, hfield (i := 5) rfl ?_, hfield (i := 6) rfl ?_,
    hfield (i := 7) rfl ?_, hfield (i := 8) rfl ?_, hfield (i := 9) rfl ?_,
    hfield (i := 10) rfl ?_, hfield (i := 11) rfl ?_, hfield (i := 12) rfl ?_,
    hfield (i := 13) rfl ?_, hfield (i := 23) rfl ?_, hfield (i := 30) rfl ?_⟩
  all_goals simp [WeatherReport.layout]

/-! ## When both agree

Two fields of one report agree if their bits do. A stretch of fields that is displaced as
a whole is compared as a whole. -/

/-- The `len` bits from `pos` on are those from `pos'` on. -/
def SameBits (p : List Bool) (pos pos' len : ℕ) : Prop :=
  (p.drop pos).take len = (p.drop pos').take len

/-- Fields have the same value when they have the same bits. -/
theorem field_eq_iff {p : List Bool} {pos pos' len : ℕ} (h : pos + len ≤ p.length)
    (h' : pos' + len ≤ p.length) : field p pos len = field p pos' len ↔ SameBits p pos pos' len :=
  ofBits_inj (by rw [length_field h, length_field h'])

/-- Bits are the same in two stretches, one after the other. -/
theorem sameBits_add {p : List Bool} {pos pos' len : ℕ} (h : pos + len ≤ p.length)
    (h' : pos' + len ≤ p.length) (more : ℕ) :
    SameBits p pos pos' (len + more) ↔
      SameBits p pos pos' len ∧ SameBits p (pos + len) (pos' + len) more := by
  rw [SameBits, List.take_add, List.take_add, List.drop_drop, List.drop_drop]
  constructor
  · intro hsame
    exact List.append_inj hsame (by rw [length_field h, length_field h'])
  · rintro ⟨hfirst, hmore⟩
    exact congrArg₂ (· ++ ·) hfirst hmore

/-- Both readings agree when the bits of all displaced fields do. -/
theorem weatherAt_eq_iff {p : List Bool} (hlen : p.length = 276) :
    weatherAt p 40 124 128 = weatherAt p 65 216 266 ↔
      SameBits p 40 65 88 ∧ SameBits p 124 216 8 ∧ SameBits p 128 266 10 := by
  have hfield : ∀ {pos pos' len : ℕ}, pos + len ≤ 276 → pos' + len ≤ 276 →
      (field p pos len = field p pos' len ↔ SameBits p pos pos' len) :=
    fun h h' => field_eq_iff (h.trans hlen.ge) (h'.trans hlen.ge)
  have hadd : ∀ {pos pos' len : ℕ} (more : ℕ), pos + len ≤ 276 → pos' + len ≤ 276 →
      (SameBits p pos pos' (len + more) ↔
        SameBits p pos pos' len ∧ SameBits p (pos + len) (pos' + len) more) :=
    fun more h h' => sameBits_add (h.trans hlen.ge) (h'.trans hlen.ge) more
  -- the bits from the wind speed to the water level, field by field
  have hwind : (88 : ℕ) = 7 + 7 + 9 + 9 + 11 + 7 + 10 + 9 + 2 + 8 + 9 := rfl
  rw [hwind, weatherAt, weatherAt, WeatherReading.mk.injEq]
  simp (disch := decide) only [hadd, and_assoc]
  simp (disch := decide) only [hfield, true_and, Nat.reduceAdd]

/-- A weather report that starts anywhere in the frame is printed with what was packed
when the bits the decoder reads are those of the fields: the 88 bits from 40 on those from
65 on, the eight from 124 on the wave height, and the ten from 128 on the water
temperature. The three distances are what the steps in comments add up to. -/
theorem weather_report_iff (m : WeatherReport) (frame : Frame) (start : ℕ)
    (hholds : HoldsBits frame start (pack m.layout)) :
    protodecMsg11 frame start = some [.printf (weatherPrint m.sent)] ↔
      SameBits (pack m.layout) 40 65 88 ∧ SameBits (pack m.layout) 124 216 8 ∧
        SameBits (pack m.layout) 128 266 10 := by
  rw [protodecMsg11_reads hholds (by rw [m.length_pack]; decide), m.sent_eq,
    ← weatherAt_eq_iff m.length_pack]
  constructor
  · intro h
    exact weatherPrint_inj.mp (Call.printf.inj (List.cons.inj (Option.some.inj h)).1)
  · intro h
    rw [h]

/-! ## The messages that carry it

A weather report comes in a broadcast or with an address. The decoder of either finds its
start and calls `protodec_msg_11`. -/

/-- A weather report that is broadcast, message type 8. -/
structure WeatherBroadcast where
  repeatIndicator : BitVec 2
  mmsi : BitVec 30
  /-- behind the sender; the application follows -/
  spare : BitVec 2
  /-- the report is the rest -/
  weather : WeatherReport

/-- Its fields: the head with the application, and those of the report. -/
def WeatherBroadcast.layout (m : WeatherBroadcast) : List Field :=
  [.number 8#6, .number m.repeatIndicator, .number m.mmsi, .number m.spare, .number 1#10,
    .number 11#6] ++ m.weather.layout

/-- What is printed when the report is read as `r`. -/
def broadcastCalls (r : WeatherReading) : List Call :=
  [.printf (.broadcast 75 1 11), .printf (.appid "tide-weather"), .printf (weatherPrint r)]

/-- A weather report to one vessel, message type 6. -/
structure WeatherAddressed where
  repeatIndicator : BitVec 2
  mmsi : BitVec 30
  /-- this and the next fields are the longer head -/
  seq : BitVec 2
  dstMmsi : BitVec 30
  retransmitted : BitVec 1
  spare : BitVec 1
  /-- the report is the rest -/
  weather : WeatherReport

/-- Its fields: the head with the addressee and the application, and those of the
report. -/
def WeatherAddressed.layout (m : WeatherAddressed) : List Field :=
  [.number 6#6, .number m.repeatIndicator, .number m.mmsi, .number m.seq, .number m.dstMmsi,
    .number m.retransmitted, .number m.spare, .number 1#10, .number 11#6] ++ m.weather.layout

/-- What is printed when the report is read as `r`. -/
def addressedCalls (m : WeatherAddressed) (r : WeatherReading) : List Call :=
  [.printf (.addressed m.dstMmsi.toNat m.seq.toNat m.retransmitted.toNat 75 1 11),
    .printf (.appid "tide-weather"), .printf (weatherPrint r)]

/-- A report behind a head starts where the head ends. -/
theorem holds_behind {rbuffer : Frame} {head : List Field} {m : WeatherReport}
    (hholds : HoldsBits rbuffer 0 (pack (head ++ m.layout))) {start : ℕ}
    (hstart : width head = start) : HoldsBits rbuffer start (pack m.layout) := by
  rw [pack, List.flatMap_append] at hholds
  have hright := hholds.right
  rw [Nat.zero_add] at hright
  rwa [← hstart, ← length_pack]

section Messages

variable (cfg : Config) (receivedT : ℤ) {rbuffer : Frame}

/-- Type 8. -/
theorem protodec8_weather (m : WeatherBroadcast) (hholds : HoldsBits rbuffer 0 (pack m.layout)) :
    protodec8 cfg rbuffer receivedT m.mmsi.toNat =
      some (broadcastCalls (weatherAt (pack m.weather.layout) 40 124 128)) := by
  have happid : protodecHenten 40 16 rbuffer = some 75 :=
    henten_two (i := 4) (v := 1#10) (j := 0) (k := 6) hholds rfl rfl (by decide) (by decide)
      (by simp [WeatherBroadcast.layout]) rfl
  have hdac : protodecHenten 40 10 rbuffer = some 1 :=
    henten_number (i := 4) (v := 1#10) hholds rfl (by simp [WeatherBroadcast.layout])
  have hfi : protodecHenten 50 6 rbuffer = some 11 :=
    henten_number (i := 5) (v := 11#6) hholds rfl (by simp [WeatherBroadcast.layout])
  have hweather : protodecMsg11 rbuffer 56 =
      some [.printf (weatherPrint (weatherAt (pack m.weather.layout) 40 124 128))] :=
    protodecMsg11_reads (holds_behind hholds (by simp)) (by rw [m.weather.length_pack]; decide)
  rw [protodec8, happid, hdac, hfi]
  simp only [Option.bind_eq_bind, Option.bind_some]
  rw [if_pos trivial, protodecMsgBin, if_pos rfl, hweather]
  rfl

/-- Type 6. -/
theorem protodec6_weather (m : WeatherAddressed) (hholds : HoldsBits rbuffer 0 (pack m.layout)) :
    protodec6 cfg rbuffer receivedT m.mmsi.toNat =
      some (addressedCalls m (weatherAt (pack m.weather.layout) 40 124 128)) := by
  have hseq : protodecHenten 38 2 rbuffer = some m.seq.toNat :=
    henten_number (i := 3) hholds rfl (by simp [WeatherAddressed.layout])
  have hdst : protodecHenten 40 30 rbuffer = some m.dstMmsi.toNat :=
    henten_number (i := 4) hholds rfl (by simp [WeatherAddressed.layout])
  have hretransmitted : protodecHenten 70 1 rbuffer = some m.retransmitted.toNat :=
    henten_number (i := 5) hholds rfl (by simp [WeatherAddressed.layout])
  have happid : protodecHenten 72 16 rbuffer = some 75 :=
    henten_two (i := 7) (v := 1#10) (j := 0) (k := 6) hholds rfl rfl (by decide) (by decide)
      (by simp [WeatherAddressed.layout]) rfl
  have hdac : protodecHenten 72 10 rbuffer = some 1 :=
    henten_number (i := 7) (v := 1#10) hholds rfl (by simp [WeatherAddressed.layout])
  have hfi : protodecHenten 82 6 rbuffer = some 11 :=
    henten_number (i := 8) (v := 11#6) hholds rfl (by simp [WeatherAddressed.layout])
  have hweather : protodecMsg11 rbuffer 88 =
      some [.printf (weatherPrint (weatherAt (pack m.weather.layout) 40 124 128))] :=
    protodecMsg11_reads (holds_behind hholds (by simp)) (by rw [m.weather.length_pack]; decide)
  rw [protodec6, hseq, hdst, hretransmitted, happid, hdac, hfi]
  simp only [Option.bind_eq_bind, Option.bind_some]
  rw [if_pos trivial, protodecMsgBin, if_pos rfl, hweather]
  rfl

/-- Of a broadcast and of an addressed weather report what was packed is reported
in the same cases. -/
theorem weather_messages_reported_iff (d : DemodState) (bufferlen : ℕ) :
    (∀ m : WeatherBroadcast, Received d bufferlen (pack m.layout) → cfg.skipType 8 = false →
      (Reported cfg receivedT bufferlen d 8 m.mmsi.toNat (broadcastCalls m.weather.sent) ↔
        SameBits (pack m.weather.layout) 40 65 88 ∧ SameBits (pack m.weather.layout) 124 216 8 ∧
          SameBits (pack m.weather.layout) 128 266 10)) ∧
    (∀ m : WeatherAddressed, Received d bufferlen (pack m.layout) → cfg.skipType 6 = false →
      (Reported cfg receivedT bufferlen d 6 m.mmsi.toNat (addressedCalls m m.weather.sent) ↔
        SameBits (pack m.weather.layout) 40 65 88 ∧ SameBits (pack m.weather.layout) 124 216 8 ∧
          SameBits (pack m.weather.layout) 128 266 10)) := by
  constructor
  · intro m hrec hskip
    refine (hrec.reported_layout_iff (by decide) hskip fun rbuffer hholds =>
      protodec8_weather cfg receivedT m hholds).trans ?_
    rw [← weatherAt_eq_iff m.weather.length_pack, ← m.weather.sent_eq]
    simp [broadcastCalls, weatherPrint_inj]
  · intro m hrec hskip
    refine (hrec.reported_layout_iff (by decide) hskip fun rbuffer hholds =>
      protodec6_weather cfg receivedT m hholds).trans ?_
    rw [← weatherAt_eq_iff m.weather.length_pack, ← m.weather.sent_eq]
    simp [addressedCalls, weatherPrint_inj]

end Messages

/-! ## Instances

Almost every report is misread. One that is not must repeat itself in the right places,
and such a report is given as well. -/

instance (p : List Bool) (pos pos' len : ℕ) : Decidable (SameBits p pos pos' len) :=
  inferInstanceAs (Decidable (_ = _))

/-- A report of zeroes with some wind speed. -/
def breeze (speed : BitVec 7) : WeatherReport where
  latitude := 0
  longitude := 0
  datetime := 0
  windSpeed := speed
  windGust := 0
  windDir := 0
  windGustDir := 0
  airTemp := 0
  relHumid := 0
  dewPoint := 0
  airPress := 0
  airPressTend := 0
  horizVisibNm := 0
  waterLevel := 0
  waterTrend := 0
  surfaceCurrentSpeed := 0
  surfaceCurrentDir := 0
  d1CurrentSpeed := 0
  d1CurrentDir := 0
  d1CurrentDepth := 0
  d2CurrentSpeed := 0
  d2CurrentDir := 0
  d2CurrentDepth := 0
  waveHeightSignificant := 0
  wavePeriod := 0
  waveDir := 0
  swellHeight := 0
  swellPeriod := 0
  swellDir := 0
  seaState := 0
  waterTemp := 0

/-- A frame with a report where a broadcast has it. -/
def broadcastFrame (m : WeatherReport) : Frame :=
  splice (Vector.replicate _ 0) 56 ((pack m.layout).map byte)

theorem broadcastFrame_holds (m : WeatherReport) :
    HoldsBits (broadcastFrame m) 56 (pack m.layout) :=
  holdsBits_splice_at _ (by rw [m.length_pack]; decide)

/-- A report that is lucky: its bits repeat where the decoder reads too early. -/
def luckyReport : WeatherReport where
  latitude := 3600000
  longitude := 599632
  datetime := 61801
  windSpeed := 20
  windGust := 30
  windDir := 90
  windGustDir := 148
  airTemp := 482
  relHumid := 105
  dewPoint := 161
  airPress := 453
  airPressTend := 2
  horizVisibNm := 146
  waterLevel := 271
  waterTrend := 1
  surfaceCurrentSpeed := 12
  surfaceCurrentDir := 45
  d1CurrentSpeed := 10
  d1CurrentDir := 46
  d1CurrentDepth := 5
  d2CurrentSpeed := 8
  d2CurrentDir := 47
  d2CurrentDepth := 10
  waveHeightSignificant := 241
  wavePeriod := 6
  waveDir := 100
  swellHeight := 15
  swellPeriod := 9
  swellDir := 110
  seaState := 4
  waterTemp := 90

/-- It is printed with what was sent. -/
theorem weather_report_iff_lucky :
    (protodecMsg11 (broadcastFrame luckyReport) 56 =
        some [.printf (weatherPrint luckyReport.sent)] ↔
      SameBits (pack luckyReport.layout) 40 65 88 ∧ SameBits (pack luckyReport.layout) 124 216 8 ∧
        SameBits (pack luckyReport.layout) 128 266 10) ∧
    protodecMsg11 (broadcastFrame luckyReport) 56 =
      some [.printf (weatherPrint luckyReport.sent)] := by
  have hiff := weather_report_iff luckyReport _ 56 (broadcastFrame_holds _)
  exact ⟨hiff, hiff.mpr (by decide +kernel)⟩

/-- The broadcast with it. -/
def luckyBroadcast : WeatherBroadcast := ⟨0, 2655651, 0, luckyReport⟩

/-- The same report, addressed to a station. -/
def luckyAddressed : WeatherAddressed := ⟨0, 2655651, 1, 230012345, 0, 0, luckyReport⟩

theorem weather_messages_reported_iff_lucky :
    (Reported .silent 0 336 (decoding (pack luckyBroadcast.layout)) 8 2655651
        (broadcastCalls luckyReport.sent) ↔
      SameBits (pack luckyReport.layout) 40 65 88 ∧ SameBits (pack luckyReport.layout) 124 216 8 ∧
        SameBits (pack luckyReport.layout) 128 266 10) ∧
    (Reported .silent 0 368 (decoding (pack luckyAddressed.layout)) 6 2655651
        (addressedCalls luckyAddressed luckyReport.sent) ↔
      SameBits (pack luckyReport.layout) 40 65 88 ∧ SameBits (pack luckyReport.layout) 124 216 8 ∧
        SameBits (pack luckyReport.layout) 128 266 10) :=
  ⟨(weather_messages_reported_iff .silent 0 _ 336).1 luckyBroadcast
      (decoding_received (by rw [length_pack]; simp [WeatherBroadcast.layout, WeatherReport.layout])
        (by decide)) rfl,
    (weather_messages_reported_iff .silent 0 _ 368).2 luckyAddressed
      (decoding_received (by rw [length_pack]; simp [WeatherAddressed.layout, WeatherReport.layout])
        (by decide)) rfl⟩

/-- A wind of 20 knots is not reported. -/
theorem breeze_misread : HoldsBits (broadcastFrame (breeze 20)) 56 (pack (breeze 20).layout) ∧
    protodecMsg11 (broadcastFrame (breeze 20)) 56 ≠
      some [.printf (weatherPrint (breeze 20).sent)] := by
  have hholds := broadcastFrame_holds (breeze 20)
  refine ⟨hholds, fun h => ?_⟩
  rw [protodecMsg11_reads hholds (by rw [WeatherReport.length_pack]; decide),
    (breeze 20).sent_eq] at h
  have hread := weatherPrint_inj.mp (Call.printf.inj (List.cons.inj (Option.some.inj h)).1)
  have hsame := (weatherAt_eq_iff (breeze 20).length_pack).mp hread
  exact absurd hsame.1 (by decide +kernel)

end Gnuais
