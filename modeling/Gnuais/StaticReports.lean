import Gnuais.Letters

/-!
# Static data, sent and decoded

Who a vessel is comes in four messages: type 5 from class A vessels, and from
class B vessels type 19 and the two parts of type 24. For each there is the
message with its fields, and `protodecX_layout` says what the decoder's calls
report of it.

Names and destinations are always recovered (`names_recovered`). A callsign has
seven letters in both messages that carry one, and the two loops take six: it is
recovered when it leaves the last one free (`static_data_recovered_iff`).
-/

namespace Gnuais

open Bits Layout

/-! ## What is reported

The strings are those of the decoder, without the blanks at their ends. A reading keeps
the dimensions apart, as the database and the cache do. -/

/-- What a class A vessel's static data say. -/
structure StaticReading where
  /-- the IMO number -/
  imo : ℕ
  /-- six letters at most -/
  callsign : List UInt8
  /-- 20 letters at most, as the destination -/
  name : List UInt8
  destination : List UInt8
  shiptype : ℕ
  /-- the dimensions, in metres -/
  a : ℕ
  b : ℕ
  c : ℕ
  d : ℕ
  /-- in tenths of a metre -/
  draught : ℕ

/-- The calls that report a class A vessel's static data. -/
def staticCalls (cfg : Config) (receivedT : ℤ) (mmsi : ℕ) (r : StaticReading) : List Call :=
  .printf (.vessel r.name r.destination r.shiptype (r.a + r.b) (r.c + r.d) (scaled r.draught 10))
    :: callIf cfg.my
      (.myoutAisVesseldata receivedT mmsi r.name r.destination (scaled r.draught 10)
        r.a r.b r.c r.d)
    ++ callIf cfg.cachePositions
      (.cache (.vesseldata receivedT (Int32.ofNat mmsi) r.imo r.callsign r.name r.destination
        r.shiptype r.a r.b r.c r.d (.div (.ofInt r.draught) (.lit 10))))

/-- What an extended report of a class B vessel says of it. -/
structure ClassBReading where
  name : List UInt8
  shiptype : ℕ
  a : ℕ
  b : ℕ
  c : ℕ
  d : ℕ

/-- The calls that report a class B vessel. -/
def classBCalls (cfg : Config) (receivedT : ℤ) (mmsi : ℕ) (r : ClassBReading) : List Call :=
  .printf (.classB r.name r.shiptype (r.a + r.b) (r.c + r.d))
    :: callIf cfg.my (.myoutAisVesselname receivedT mmsi r.name classBDestination)
    ++ callIf cfg.my (.myoutAisVesseldatab receivedT mmsi r.a r.b r.c r.d)
    ++ callIf cfg.cachePositions
      (.cache (.vesselname receivedT (Int32.ofNat mmsi) r.name classBDestination))
    ++ callIf cfg.cachePositions
      (.cache (.vesseldatabb receivedT (Int32.ofNat mmsi) r.shiptype r.a r.b r.c r.d))

/-- The calls that report a class B vessel's name. -/
def nameCalls (cfg : Config) (receivedT : ℤ) (mmsi : ℕ) (name : List UInt8) : List Call :=
  .printf (.vesselName name)
    :: callIf cfg.my (.myoutAisVesselname receivedT mmsi name classBDestination)
    ++ callIf cfg.cachePositions
      (.cache (.vesselname receivedT (Int32.ofNat mmsi) name classBDestination))

/-- What the second part of a class B vessel's static data says. -/
structure PartBReading where
  callsign : List UInt8
  shiptype : ℕ
  a : ℕ
  b : ℕ
  c : ℕ
  d : ℕ

/-- The calls that report the second part. -/
def partBCalls (cfg : Config) (receivedT : ℤ) (mmsi : ℕ) (r : PartBReading) : List Call :=
  .printf (.vesselCallsign r.callsign r.shiptype (r.a + r.b) (r.c + r.d))
    :: callIf cfg.my (.myoutAisVesseldatab receivedT mmsi r.a r.b r.c r.d)
    ++ callIf cfg.cachePositions
      (.cache (.vesseldatab receivedT (Int32.ofNat mmsi) r.callsign r.shiptype r.a r.b r.c r.d))

/-! ## The messages

A text field is a fixed number of letters. What the layouts have in common is the four
dimensions, which stand together everywhere. -/

/-- The size of a vessel: the distances from the antenna to the bow, the stern
and both sides. -/
structure Dimensions where
  /-- to the bow and to the stern, in metres -/
  a : BitVec 9
  b : BitVec 9
  /-- to port and to starboard -/
  c : BitVec 6
  d : BitVec 6

/-- Static data of a class A vessel, message type 5. -/
structure StaticReport where
  repeatIndicator : BitVec 2
  mmsi : BitVec 30
  /-- nothing reads it -/
  version : BitVec 2
  imo : BitVec 30
  /-- seven letters, of which six are read -/
  callsign : Letters 7
  name : Letters 20
  shiptype : BitVec 8
  dimensions : Dimensions
  /-- this field and the next are not read either -/
  fixType : BitVec 4
  eta : BitVec 20
  draught : BitVec 8
  /-- it is behind the draught, at the end -/
  destination : Letters 20

/-- Its fields in their order. -/
def StaticReport.layout (m : StaticReport) : List Field :=
  [.number 5#6, .number m.repeatIndicator, .number m.mmsi, .number m.version, .number m.imo,
    m.callsign.field, m.name.field, .number m.shiptype, .number m.dimensions.a,
    .number m.dimensions.b, .number m.dimensions.c, .number m.dimensions.d, .number m.fixType,
    .number m.eta, .number m.draught, m.destination.field]

/-- An extended report of a class B vessel, message type 19. `position` are the
fields between the sender and the name. -/
structure ExtendedReport where
  repeatIndicator : BitVec 2
  mmsi : BitVec 30
  /-- as in type 18, and not read -/
  position : BitVec 105
  name : Letters 20
  shiptype : BitVec 8
  dimensions : Dimensions

/-- Its fields in their order. -/
def ExtendedReport.layout (m : ExtendedReport) : List Field :=
  [.number 19#6, .number m.repeatIndicator, .number m.mmsi, .number m.position, m.name.field,
    .number m.shiptype, .number m.dimensions.a, .number m.dimensions.b, .number m.dimensions.c,
    .number m.dimensions.d]

/-- The first part of a class B vessel's static data, message type 24. -/
structure PartAReport where
  repeatIndicator : BitVec 2
  mmsi : BitVec 30
  name : Letters 20

/-- Its fields in their order. -/
def PartAReport.layout (m : PartAReport) : List Field :=
  [.number 24#6, .number m.repeatIndicator, .number m.mmsi, .number 0#2, m.name.field]

/-- The second part. -/
structure PartBReport where
  repeatIndicator : BitVec 2
  mmsi : BitVec 30
  shiptype : BitVec 8
  /-- nothing reads it -/
  vendor : BitVec 42
  /-- seven letters again -/
  callsign : Letters 7
  dimensions : Dimensions

/-- Its fields in their order. -/
def PartBReport.layout (m : PartBReport) : List Field :=
  [.number 24#6, .number m.repeatIndicator, .number m.mmsi, .number 1#2, .number m.shiptype,
    .number m.vendor, m.callsign.field, .number m.dimensions.a, .number m.dimensions.b,
    .number m.dimensions.c, .number m.dimensions.d]

/-! ## What is read

`saying` is the reading for some callsign, so that what is read and what was sent can be
compared by the callsign alone. -/

/-- What a class A vessel's static data say when the callsign is `callsign`. -/
def StaticReport.saying (m : StaticReport) (callsign : List UInt8) : StaticReading where
  imo := m.imo.toNat
  callsign := callsign
  name := shown (m.name.toList.take 20)
  destination := shown (m.destination.toList.take 20)
  shiptype := m.shiptype.toNat
  a := m.dimensions.a.toNat
  b := m.dimensions.b.toNat
  c := m.dimensions.c.toNat
  d := m.dimensions.d.toNat
  draught := m.draught.toNat

/-- What `protodec_5` reads: of the callsign, six letters. -/
def StaticReport.read (m : StaticReport) : StaticReading :=
  m.saying (shown (m.callsign.toList.take 6))

/-- What `protodec_19` reads. -/
def ExtendedReport.read (m : ExtendedReport) : ClassBReading where
  name := shown (m.name.toList.take 20)
  shiptype := m.shiptype.toNat
  a := m.dimensions.a.toNat
  b := m.dimensions.b.toNat
  c := m.dimensions.c.toNat
  d := m.dimensions.d.toNat

/-- What the second part says when the callsign is `callsign`. -/
def PartBReport.saying (m : PartBReport) (callsign : List UInt8) : PartBReading where
  callsign := callsign
  shiptype := m.shiptype.toNat
  a := m.dimensions.a.toNat
  b := m.dimensions.b.toNat
  c := m.dimensions.c.toNat
  d := m.dimensions.d.toNat

/-- What `protodec_24` reads of the second part: of the callsign, six letters. -/
def PartBReport.read (m : PartBReport) : PartBReading :=
  m.saying (shown (m.callsign.toList.take 6))

/-- A field of at most eight bits fits an `unsigned char`. -/
theorem cUChar_toNat {w : ℕ} (hw : w ≤ 8) (v : BitVec w) : cUChar v.toNat = v.toNat :=
  Nat.mod_eq_of_lt (lt_of_lt_of_le v.isLt (Nat.pow_le_pow_right (by decide) hw))

section Read

variable (cfg : Config) (receivedT : ℤ) (mmsi : ℕ) {rbuffer : Frame}

/-- Type 5. -/
theorem protodec5_layout (m : StaticReport) (hholds : HoldsBits rbuffer 0 (pack m.layout)) :
    protodec5 cfg rbuffer receivedT mmsi = some (staticCalls cfg receivedT mmsi m.read) := by
  have himo : protodecHenten 40 30 rbuffer = some m.imo.toNat :=
    henten_number (i := 4) hholds rfl (by simp [StaticReport.layout])
  have hcallsign : sixbitText 70 6 rbuffer = some (shown (m.callsign.toList.take 6)) :=
    sixbitText_letters (i := 5) hholds rfl (by decide) (by simp [StaticReport.layout])
  have hname : sixbitText 112 20 rbuffer = some (shown (m.name.toList.take 20)) :=
    sixbitText_letters (i := 6) hholds rfl (by decide) (by simp [StaticReport.layout])
  have hdestination : sixbitText (120 + 106 + 68 + 8) 20 rbuffer =
      some (shown (m.destination.toList.take 20)) :=
    sixbitText_letters (i := 15) hholds rfl (by decide) (by simp [StaticReport.layout])
  have hshiptype : protodecHenten 232 8 rbuffer = some m.shiptype.toNat :=
    henten_number (i := 7) hholds rfl (by simp [StaticReport.layout])
  have ha : protodecHenten 240 9 rbuffer = some m.dimensions.a.toNat :=
    henten_number (i := 8) hholds rfl (by simp [StaticReport.layout])
  have hb : protodecHenten (240 + 9) 9 rbuffer = some m.dimensions.b.toNat :=
    henten_number (i := 9) hholds rfl (by simp [StaticReport.layout])
  have hc : protodecHenten (240 + 9 + 9) 6 rbuffer = some m.dimensions.c.toNat :=
    henten_number (i := 10) hholds rfl (by simp [StaticReport.layout])
  have hd : protodecHenten (240 + 9 + 9 + 6) 6 rbuffer = some m.dimensions.d.toNat :=
    henten_number (i := 11) hholds rfl (by simp [StaticReport.layout])
  have hdraught : protodecHenten 294 8 rbuffer = some m.draught.toNat :=
    henten_number (i := 14) hholds rfl (by simp [StaticReport.layout])
  rw [protodec5, himo, hcallsign, hname, hdestination, hshiptype, ha, hb, hc, hd, hdraught]
  simp only [Option.bind_eq_bind, Option.bind_some, Option.pure_def,
    cUChar_toNat (show 6 ≤ 8 by decide), cUChar_toNat (show 8 ≤ 8 by decide)]
  rfl

/-- Type 19. -/
theorem protodec19_layout (m : ExtendedReport) (hholds : HoldsBits rbuffer 0 (pack m.layout)) :
    protodec19 cfg rbuffer receivedT mmsi = some (classBCalls cfg receivedT mmsi m.read) := by
  have hname : sixbitText 143 20 rbuffer = some (shown (m.name.toList.take 20)) :=
    sixbitText_letters (i := 4) hholds rfl (by decide) (by simp [ExtendedReport.layout])
  have hshiptype : protodecHenten 263 8 rbuffer = some m.shiptype.toNat :=
    henten_number (i := 5) hholds rfl (by simp [ExtendedReport.layout])
  have ha : protodecHenten 271 9 rbuffer = some m.dimensions.a.toNat :=
    henten_number (i := 6) hholds rfl (by simp [ExtendedReport.layout])
  have hb : protodecHenten (271 + 9) 9 rbuffer = some m.dimensions.b.toNat :=
    henten_number (i := 7) hholds rfl (by simp [ExtendedReport.layout])
  have hc : protodecHenten (271 + 9 + 9) 6 rbuffer = some m.dimensions.c.toNat :=
    henten_number (i := 8) hholds rfl (by simp [ExtendedReport.layout])
  have hd : protodecHenten (271 + 9 + 9 + 6) 6 rbuffer = some m.dimensions.d.toNat :=
    henten_number (i := 9) hholds rfl (by simp [ExtendedReport.layout])
  rw [protodec19, hname, hshiptype, ha, hb, hc, hd]
  simp only [Option.bind_eq_bind, Option.bind_some, Option.pure_def,
    cUChar_toNat (show 6 ≤ 8 by decide)]
  rfl

/-- Type 24, the first part. -/
theorem protodec24_partA_layout (m : PartAReport)
    (hholds : HoldsBits rbuffer 0 (pack m.layout)) :
    protodec24 cfg rbuffer receivedT mmsi =
      some (nameCalls cfg receivedT mmsi (shown (m.name.toList.take 20))) := by
  have hpart : protodecHenten 38 2 rbuffer = some 0 :=
    henten_number (i := 3) (v := 0#2) hholds rfl (by simp [PartAReport.layout])
  have hname : sixbitText 40 20 rbuffer = some (shown (m.name.toList.take 20)) :=
    sixbitText_letters (i := 4) hholds rfl (by decide) (by simp [PartAReport.layout])
  rw [protodec24, hpart]
  simp only [Option.bind_eq_bind, Option.bind_some]
  rw [if_pos trivial, protodec24PartA, hname]
  rfl

/-- Type 24, the second part. -/
theorem protodec24_partB_layout (m : PartBReport)
    (hholds : HoldsBits rbuffer 0 (pack m.layout)) :
    protodec24 cfg rbuffer receivedT mmsi = some (partBCalls cfg receivedT mmsi m.read) := by
  have hpart : protodecHenten 38 2 rbuffer = some 1 :=
    henten_number (i := 3) (v := 1#2) hholds rfl (by simp [PartBReport.layout])
  have hcallsign : sixbitText 90 6 rbuffer = some (shown (m.callsign.toList.take 6)) :=
    sixbitText_letters (i := 6) hholds rfl (by decide) (by simp [PartBReport.layout])
  have hshiptype : protodecHenten 40 8 rbuffer = some m.shiptype.toNat :=
    henten_number (i := 4) hholds rfl (by simp [PartBReport.layout])
  have ha : protodecHenten 132 9 rbuffer = some m.dimensions.a.toNat :=
    henten_number (i := 7) hholds rfl (by simp [PartBReport.layout])
  have hb : protodecHenten (132 + 9) 9 rbuffer = some m.dimensions.b.toNat :=
    henten_number (i := 8) hholds rfl (by simp [PartBReport.layout])
  have hc : protodecHenten (132 + 9 + 9) 6 rbuffer = some m.dimensions.c.toNat :=
    henten_number (i := 9) hholds rfl (by simp [PartBReport.layout])
  have hd : protodecHenten (132 + 9 + 9 + 6) 6 rbuffer = some m.dimensions.d.toNat :=
    henten_number (i := 10) hholds rfl (by simp [PartBReport.layout])
  rw [protodec24, hpart]
  simp only [Option.bind_eq_bind, Option.bind_some]
  rw [if_neg (by decide), if_pos trivial, protodec24PartB, hcallsign, hshiptype, ha, hb, hc, hd]
  simp only [Option.bind_eq_bind, Option.bind_some, Option.pure_def,
    cUChar_toNat (show 6 ≤ 8 by decide)]
  rfl

end Read

/-! ## What is recovered

All loops over names take as many letters as the field has. Only the two over callsigns
take one less. -/

section Recovered

variable (cfg : Config) (receivedT : ℤ) (d : DemodState) (bufferlen : ℕ)

/-- Names and destinations are recovered from all four messages that carry one. Names that
end in a blank cannot be told from padding, and `@` cannot be told from a blank; no other
text is lost. -/
theorem names_recovered :
    (∀ m : StaticReport, Received d bufferlen (pack m.layout) → cfg.skipType 5 = false →
      ∃ r, Reported cfg receivedT bufferlen d 5 m.mmsi.toNat
          (staticCalls cfg receivedT m.mmsi.toNat r) ∧
        (∀ name : Padded 20, m.name = name.letters → r.name = name.text) ∧
        (∀ destination : Padded 20, m.destination = destination.letters →
          r.destination = destination.text)) ∧
    (∀ m : ExtendedReport, Received d bufferlen (pack m.layout) → cfg.skipType 19 = false →
      ∃ r, Reported cfg receivedT bufferlen d 19 m.mmsi.toNat
          (classBCalls cfg receivedT m.mmsi.toNat r) ∧
        ∀ name : Padded 20, m.name = name.letters → r.name = name.text) ∧
    (∀ m : PartAReport, Received d bufferlen (pack m.layout) → cfg.skipType 24 = false →
      ∃ s, Reported cfg receivedT bufferlen d 24 m.mmsi.toNat
          (nameCalls cfg receivedT m.mmsi.toNat s) ∧
        ∀ name : Padded 20, m.name = name.letters → s = name.text) := by
  have hshown : ∀ {l : Letters 20} {t : Padded 20}, l = t.letters →
      shown (l.toList.take 20) = t.text := by
    rintro l t rfl
    exact t.shown_letters
  refine ⟨fun m hrec hskip => ?_, fun m hrec hskip => ?_, fun m hrec hskip => ?_⟩
  · refine ⟨m.read, ?_, fun _ h => hshown h, fun _ h => hshown h⟩
    refine (hrec.reported_layout_iff (by decide) hskip fun rbuffer hholds => ?_).mpr rfl
    exact protodec5_layout cfg receivedT m.mmsi.toNat m hholds
  · refine ⟨m.read, ?_, fun _ h => hshown h⟩
    refine (hrec.reported_layout_iff (by decide) hskip fun rbuffer hholds => ?_).mpr rfl
    exact protodec19_layout cfg receivedT m.mmsi.toNat m hholds
  · refine ⟨_, ?_, fun _ h => hshown h⟩
    refine (hrec.reported_layout_iff (by decide) hskip fun rbuffer hholds => ?_).mpr rfl
    exact protodec24_partA_layout cfg receivedT m.mmsi.toNat m hholds

/-- With the cache in use the callsign is among what is reported. -/
theorem staticCalls_saying_inj {cfg : Config} (hcache : cfg.cachePositions = true)
    {receivedT : ℤ} {mmsi : ℕ} {m : StaticReport} {s s' : List UInt8} :
    staticCalls cfg receivedT mmsi (m.saying s) = staticCalls cfg receivedT mmsi (m.saying s') ↔
      s = s' := by
  constructor
  · intro h
    rw [staticCalls, staticCalls, hcache] at h
    have hlast := (List.append_inj' h rfl).2
    have hcall := Call.cache.inj (List.cons.inj hlast).1
    exact (CacheCall.vesseldata.inj hcall).2.2.2.1
  · rintro rfl
    rfl

/-- The same for the second part. -/
theorem partBCalls_saying_inj {cfg : Config} {receivedT : ℤ} {mmsi : ℕ} {m : PartBReport}
    {s s' : List UInt8} :
    partBCalls cfg receivedT mmsi (m.saying s) = partBCalls cfg receivedT mmsi (m.saying s') ↔
      s = s' := by
  constructor
  · intro h
    have hprint := congrArg List.head? h
    simp only [partBCalls, List.cons_append, List.head?_cons, Option.some.injEq,
      Call.printf.injEq, Report.vesselCallsign.injEq] at hprint
    exact hprint.1
  · rintro rfl
    rfl

/-- The static data of both classes of vessels, with any callsign of at most seven
letters: they are reported with what was sent when the callsign has at most six, and in no
other case. The seventh letter is the one that both loops leave out. -/
theorem static_data_recovered_iff (hcache : cfg.cachePositions = true) :
    (∀ (m : StaticReport) (callsign : Padded 7), m.callsign = callsign.letters →
      Received d bufferlen (pack m.layout) → cfg.skipType 5 = false →
      (Reported cfg receivedT bufferlen d 5 m.mmsi.toNat
          (staticCalls cfg receivedT m.mmsi.toNat (m.saying callsign.text)) ↔
        callsign.text.length ≤ 6)) ∧
    (∀ (m : PartBReport) (callsign : Padded 7), m.callsign = callsign.letters →
      Received d bufferlen (pack m.layout) → cfg.skipType 24 = false →
      (Reported cfg receivedT bufferlen d 24 m.mmsi.toNat
          (partBCalls cfg receivedT m.mmsi.toNat (m.saying callsign.text)) ↔
        callsign.text.length ≤ 6)) := by
  constructor
  · intro m callsign hcallsign hrec hskip
    refine ((hrec.reported_layout_iff (by decide) hskip fun rbuffer hholds =>
      protodec5_layout cfg receivedT m.mmsi.toNat m hholds).trans
        (staticCalls_saying_inj hcache)).trans ?_
    rw [hcallsign, callsign.shown_take_iff]
  · intro m callsign hcallsign hrec hskip
    refine ((hrec.reported_layout_iff (by decide) hskip fun rbuffer hholds =>
      protodec24_partB_layout cfg receivedT m.mmsi.toNat m hholds).trans
        partBCalls_saying_inj).trans ?_
    rw [hcallsign, callsign.shown_take_iff]

end Recovered

/-! ## Instances

One vessel in all four messages. Its name is padded with `@` and blanks, and its callsign
has six letters or seven. -/

/-- "M/S NOVA", padded with both. -/
def novaName : Padded 20 where
  text := [77, 47, 83, 32, 78, 79, 86, 65]
  padding := [64, 32, 32, 64] ++ List.replicate 8 64
  fills := rfl
  alphabet := by simp
  last := by decide
  blank := by simp

/-- "HELSINKI" -/
def novaDestination : Padded 20 where
  text := [72, 69, 76, 83, 73, 78, 75, 73]
  padding := List.replicate 12 32
  fills := rfl
  alphabet := by simp
  last := by decide
  blank := by simp

/-- "OJ1234", which leaves one letter free. -/
def shortCallsign : Padded 7 where
  text := [79, 74, 49, 50, 51, 52]
  padding := [64]
  fills := rfl
  alphabet := by simp
  last := by decide
  blank := by simp

/-- "OJ12345" -/
def longCallsign : Padded 7 where
  text := [79, 74, 49, 50, 51, 52, 53]
  padding := []
  fills := rfl
  alphabet := by simp
  last := by decide
  blank := by simp

/-- A class A vessel with some callsign. -/
def nova (callsign : Padded 7) : StaticReport where
  repeatIndicator := 0
  mmsi := 230012345
  version := 0
  imo := 9123456
  callsign := callsign.letters
  name := novaName.letters
  shiptype := 70
  dimensions := ⟨100, 20, 8, 7⟩
  fixType := 1
  eta := 0
  draught := 65
  destination := novaDestination.letters

/-- A class B vessel of the same name. -/
def novaB : ExtendedReport := ⟨0, 230012346, 0, novaName.letters, 37, ⟨10, 2, 2, 1⟩⟩

/-- The first part of its static data. -/
def novaPartA : PartAReport := ⟨0, 230012346, novaName.letters⟩

/-- The second part. -/
def novaPartB : PartBReport := ⟨0, 230012346, 37, 0, shortCallsign.letters, ⟨10, 2, 2, 1⟩⟩

theorem nova_received (callsign : Padded 7) :
    Received (decoding (pack (nova callsign).layout)) 424 (pack (nova callsign).layout) :=
  decoding_received (by rw [length_pack]; simp [StaticReport.layout]) (by decide)

/-- With a database and the cache. -/
def Config.keeping : Config := ⟨true, true, false, fun _ => false⟩

theorem names_recovered_nova :
    (∃ r, Reported .keeping 0 424 (decoding (pack (nova shortCallsign).layout)) 5 230012345
        (staticCalls .keeping 0 230012345 r) ∧
      r.name = [77, 47, 83, 32, 78, 79, 86, 65] ∧
      r.destination = [72, 69, 76, 83, 73, 78, 75, 73]) ∧
    (∃ r, Reported .keeping 0 312 (decoding (pack novaB.layout)) 19 230012346
        (classBCalls .keeping 0 230012346 r) ∧ r.name = [77, 47, 83, 32, 78, 79, 86, 65]) ∧
    (∃ s, Reported .keeping 0 160 (decoding (pack novaPartA.layout)) 24 230012346
        (nameCalls .keeping 0 230012346 s) ∧ s = [77, 47, 83, 32, 78, 79, 86, 65]) := by
  obtain ⟨r, hreported, hname, hdestination⟩ := (names_recovered .keeping 0 _ 424).1
    (nova shortCallsign) (nova_received shortCallsign) rfl
  obtain ⟨rB, hreportedB, hnameB⟩ := (names_recovered .keeping 0 _ 312).2.1 novaB
    (decoding_received (by rw [length_pack]; simp [ExtendedReport.layout]) (by decide)) rfl
  obtain ⟨s, hreportedA, hnameA⟩ := (names_recovered .keeping 0 _ 160).2.2 novaPartA
    (decoding_received (by rw [length_pack]; simp [PartAReport.layout]) (by decide)) rfl
  exact ⟨⟨r, hreported, hname novaName rfl, hdestination novaDestination rfl⟩,
    ⟨rB, hreportedB, hnameB novaName rfl⟩, ⟨s, hreportedA, hnameA novaName rfl⟩⟩

theorem static_data_recovered_iff_nova :
    (Reported ⟨false, true, false, fun _ => false⟩ 0 424
        (decoding (pack (nova shortCallsign).layout)) 5 230012345
        (staticCalls ⟨false, true, false, fun _ => false⟩ 0 230012345
          ((nova shortCallsign).saying [79, 74, 49, 50, 51, 52])) ↔
      shortCallsign.text.length ≤ 6) ∧
    (Reported ⟨false, true, false, fun _ => false⟩ 0 168 (decoding (pack novaPartB.layout)) 24
        230012346
        (partBCalls ⟨false, true, false, fun _ => false⟩ 0 230012346
          (novaPartB.saying [79, 74, 49, 50, 51, 52])) ↔
      shortCallsign.text.length ≤ 6) :=
  ⟨(static_data_recovered_iff ⟨false, true, false, fun _ => false⟩ 0 _ 424 rfl).1
      (nova shortCallsign) shortCallsign rfl (nova_received shortCallsign) rfl,
    (static_data_recovered_iff ⟨false, true, false, fun _ => false⟩ 0 _ 168 rfl).2 novaPartB
      shortCallsign rfl
      (decoding_received (by rw [length_pack]; simp [PartBReport.layout]) (by decide)) rfl⟩

/-- The last digit of a callsign of seven letters is lost. -/
theorem long_callsign_cut : longCallsign.text.length = 7 ∧
    Received (decoding (pack (nova longCallsign).layout)) 424 (pack (nova longCallsign).layout) ∧
    ¬ Reported ⟨false, true, false, fun _ => false⟩ 0 424
      (decoding (pack (nova longCallsign).layout)) 5 230012345
      (staticCalls ⟨false, true, false, fun _ => false⟩ 0 230012345
        ((nova longCallsign).saying longCallsign.text)) := by
  have hrec := nova_received longCallsign
  refine ⟨rfl, hrec, fun h => ?_⟩
  have hcalls := (hrec.reported_layout_iff (by decide) rfl fun rbuffer hholds =>
    protodec5_layout ⟨false, true, false, fun _ => false⟩ 0 _ (nova longCallsign) hholds).mp h
  have hcut := (staticCalls_saying_inj rfl).mp hcalls
  exact absurd ((longCallsign.shown_take_iff 6).mp hcut) (by decide)

end Gnuais
