import Gnuais.Transport
import Gnuais.Export
import Gnuais.Received

/-!
# Two decoders of positions

`protodec_pos` and `protodec_4` of the daemon and `type1` and `type4` of the map
window pick the same fields out of the same bits, each with its own helpers.
They agree on everything but the latitude of a base station, which the window
takes as an unsigned number: a base station south of the equator is put
somewhere else (`positions_agree_iff`).
-/

namespace Gnuais

open Buffer Bits

/-! ## What is compared

What is compared is the integers that the values are made from, so nothing depends on how
a quotient is rounded. -/

/-- The integer a value was made from. -/
def FloatExpr.numerator : FloatExpr → Option ℤ
  | .ofInt i => some i
  | .div x _ => x.numerator
  | _ => none

/-- The integers of a position report: coordinates in 1/10000 minute, and for a
vessel its course and speed in tenths and its heading. -/
structure Fix where
  /-- none for a value that is no quotient of an integer -/
  longitude : Option ℤ
  latitude : Option ℤ
  /-- course, speed and heading; a base station has none -/
  motion : Option (Option ℤ × Option ℤ × Option ℤ)
  deriving DecidableEq, Repr

/-- The sender the daemon prints. -/
def Call.sender : Call → Option ℕ
  | .printf (.frame _ _ mmsi) => some mmsi
  | _ => none

/-- The fix the daemon prints. -/
def Call.fix : Call → Option Fix
  | .printf (.position lat lon course sog _ _ heading) =>
    some ⟨lon.numerator, lat.numerator,
      some (course.numerator, sog.numerator, some heading)⟩
  | .printf (.baseStation _ _ _ _ _ _ lat lon) => some ⟨lon.numerator, lat.numerator, none⟩
  | _ => none

/-- The fix in the fields the map window stores. `type4` stores no motion. -/
def ShipData.fix (data : ShipData) : Fix where
  longitude := data.longitude.numerator
  latitude := data.latitude.numerator
  motion :=
    if data.type = 4 then none
    else some (data.course.numerator, data.speed.numerator, data.heading.numerator)

/-! ## The window

The fields are read from the letters, six bits each. -/

section Window

variable {rBuffer : RBuffer} {p : List Bool} (hholds : HoldsBits rBuffer 0 p)
  (hlen : p.length = 168) (data : ShipData)

include hholds hlen

/-- A field is read from the payload. -/
theorem hentenVal_payload {pos len : ℕ} (h : pos + len ≤ 168) :
    hentenVal pos len rBuffer = field p pos len :=
  hentenVal_field hholds (by omega)

/-- The type that the `switch` looks at. -/
theorem type_payload : cUChar (hentenVal 0 6 rBuffer) = field p 0 6 := by
  rw [hentenVal_payload hholds hlen (by decide)]
  exact Nat.mod_eq_of_lt (lt_of_lt_of_le (field_lt (by omega)) (by decide))

/-- A vessel's position report. -/
theorem decodedShip_vessel (htype : field p 0 6 = 1 ∨ field p 0 6 = 2 ∨ field p 0 6 = 3) :
    (decodedShip rBuffer data).mmsi = field p 8 30 ∧ (decodedShip rBuffer data).fix =
      ⟨some (longitudeOf (field p 61 28)), some (latitudeOf (field p 89 27)),
        some (some (field p 116 12), some (field p 50 10), some (field p 128 9))⟩ := by
  rw [← type_payload hholds hlen] at htype
  rw [decodedShip_type1 data htype, type1Ship, hentenVal_payload hholds hlen (by decide),
    hentenVal_payload hholds hlen (by decide), hentenVal_payload hholds hlen (by decide),
    hentenVal_payload hholds hlen (by decide), hentenVal_payload hholds hlen (by decide),
    hentenVal_payload hholds hlen (by decide)]
  exact ⟨rfl, rfl⟩

/-- A base station's report. -/
theorem decodedShip_station (htype : field p 0 6 = 4) :
    (decodedShip rBuffer data).mmsi = field p 8 30 ∧ (decodedShip rBuffer data).fix =
      ⟨some (longitudeOf (field p 79 28)), some (field p 107 27), none⟩ := by
  rw [← type_payload hholds hlen] at htype
  rw [decodedShip_type4 data htype, type4Ship, hentenVal_payload hholds hlen (by decide),
    hentenVal_payload hholds hlen (by decide), hentenVal_payload hholds hlen (by decide)]
  exact ⟨rfl, rfl⟩

end Window

/-! ## The daemon

A report makes several calls, for the terminal, the database and the cache. They all get
the same values, so the one that prints is taken. -/

/-- Of a call that may not be made. -/
theorem filterMap_callIf {β : Type} {f : Call → Option β} {cond : Bool} {c : Call}
    (h : f c = none) : (callIf cond c).filterMap f = [] := by
  cases cond
  · rfl
  · exact List.filterMap_cons_none h

/-- Of the calls of a position report only the print counts. -/
theorem filterMap_report {β : Type} {f : Call → Option β} {c c₁ c₂ c₃ : Call} {b₁ b₂ b₃ : Bool}
    (h₁ : f c₁ = none) (h₂ : f c₂ = none) (h₃ : f c₃ = none) :
    (c :: callIf b₁ c₁ ++ callIf b₂ c₂ ++ callIf b₃ c₃).filterMap f = (f c).toList := by
  rw [List.filterMap_append, List.filterMap_append, filterMap_callIf h₂, filterMap_callIf h₃,
    List.append_nil, List.append_nil, List.filterMap_cons, filterMap_callIf h₁]
  cases f c <;> rfl

/-- The sentences of a frame do not count. -/
theorem filterMap_sinks {β : Type} {f : Call → Option β} (hserial : ∀ s, f (.serialWrite s) = none)
    (hipc : ∀ s, f (.ipcWrite s) = none) (hnmea : ∀ t s, f (.myoutNmea t s) = none)
    {cfg : Config} {serial ipc : Bool} {receivedT : ℤ} {bodies : List (List UInt8)} :
    (bodies.flatMap (sinkCalls cfg serial ipc receivedT)).filterMap f = [] := by
  induction bodies with
  | nil => rfl
  | cons body bodies ih =>
    rw [List.flatMap_cons, List.filterMap_append, ih, sinkCalls, List.filterMap_append,
      List.filterMap_append, filterMap_callIf (hserial _), filterMap_callIf (hipc _),
      filterMap_callIf (hnmea _ _)]
    rfl

section Daemon

variable {rbuffer : Frame} {p : List Bool} (hholds : HoldsBits rbuffer 0 p)
  (hlen : p.length = 168) (cfg : Config) (receivedT : ℤ) (mmsi : ℕ)

include hholds hlen

/-- A field of the frame. -/
theorem henten_frameField {pos len : ℕ} (h : pos + len ≤ 168) :
    protodecHenten pos len rbuffer = some (field p pos len) :=
  henten_field hholds (by omega)

/-- A report of type 1, 2 or 3. -/
theorem protodecPos_fix : ∃ calls, protodecPos cfg rbuffer receivedT mmsi = some calls ∧
    calls.filterMap Call.sender = [] ∧ calls.filterMap Call.fix =
      [⟨some (longitudeOf (field p 61 28)), some (latitudeOf (field p 89 27)),
        some (some (field p 116 12), some (field p 50 10), some (field p 128 9))⟩] := by
  rw [protodecPos]
  simp only [henten_frameField hholds hlen (show 61 + 28 ≤ 168 by decide),
    henten_frameField hholds hlen (show (38 + 22 + 29) + 27 ≤ 168 by decide),
    henten_frameField hholds hlen (show (38 + 22 + 28 + 28) + 12 ≤ 168 by decide),
    henten_frameField hholds hlen (show 50 + 10 ≤ 168 by decide),
    henten_frameField hholds hlen (show (38 + 2) + 8 ≤ 168 by decide),
    henten_frameField hholds hlen (show 38 + 2 ≤ 168 by decide),
    henten_frameField hholds hlen (show (38 + 22 + 28 + 28 + 12) + 9 ≤ 168 by decide),
    Option.bind_eq_bind, Option.bind_some, Option.pure_def]
  rw [cUShort_field (by omega) (by decide), cUShort_field (by omega) (by decide),
    cUShort_field (by omega) (by decide)]
  exact ⟨_, rfl, filterMap_report rfl rfl rfl, filterMap_report rfl rfl rfl⟩

/-- A report of a base station. -/
theorem protodec4_fix : ∃ calls, protodec4 cfg rbuffer receivedT mmsi = some calls ∧
    calls.filterMap Call.sender = [] ∧ calls.filterMap Call.fix =
      [⟨some (longitudeOf (field p 79 28)), some (latitudeOf (field p 107 27)), none⟩] := by
  rw [protodec4]
  simp only [henten_frameField hholds hlen (show 40 + 12 ≤ 168 by decide),
    henten_frameField hholds hlen (show 52 + 4 ≤ 168 by decide),
    henten_frameField hholds hlen (show 56 + 5 ≤ 168 by decide),
    henten_frameField hholds hlen (show 61 + 5 ≤ 168 by decide),
    henten_frameField hholds hlen (show 66 + 6 ≤ 168 by decide),
    henten_frameField hholds hlen (show 72 + 6 ≤ 168 by decide),
    henten_frameField hholds hlen (show 79 + 28 ≤ 168 by decide),
    henten_frameField hholds hlen (show 107 + 27 ≤ 168 by decide),
    Option.bind_eq_bind, Option.bind_some, Option.pure_def]
  exact ⟨_, rfl, filterMap_report rfl rfl rfl, filterMap_report rfl rfl rfl⟩

end Daemon

/-- What the daemon prints about a frame with such a message. -/
theorem getdata_fix {cfg : Config} {receivedT : ℤ} {d : DemodState} {p : List Bool}
    (hholds : HoldsBits d.rbuffer 0 p) (hlen : p.length = 168)
    (hknown : 1 ≤ field p 0 6 ∧ field p 0 6 ≤ maxAisPacketType)
    (hskip : cfg.skipType (field p 0 6) = false) {messages : List Call}
    (hmessages : messageCalls cfg (field p 0 6) 168 d.rbuffer receivedT (field p 8 30) =
      some messages) (hsender : messages.filterMap Call.sender = []) :
    ∃ d' calls, protodecGetdata cfg receivedT 168 d = some (d', calls) ∧
      calls.filterMap Call.sender = [field p 8 30] ∧
      calls.filterMap Call.fix = messages.filterMap Call.fix := by
  have hrec : Received d 168 p := ⟨hholds, hlen.le, by decide⟩
  obtain ⟨htype, hmmsi⟩ := hrec.hentenVal_head (by omega)
  rw [← hmmsi] at hmessages ⊢
  have hnofill : fillbitsOf 168 = 0 := rfl
  obtain ⟨bodies, hobs⟩ := getdataObs_messages d.rbuffer d.chanid d.seqnr d.serial d.ipc
    hrec.fits htype hknown hskip (by rw [hnofill]; exact hmessages)
  have heq := protodecGetdata_eq cfg receivedT 168 d
  rw [hobs] at heq
  obtain ⟨rbuffer', nmea, ser, ipc, hgetdata⟩ := heq
  refine ⟨_, _, hgetdata, ?_, ?_⟩
  · rw [List.filterMap_append, List.filterMap_append, filterMap_sinks (fun _ => rfl)
      (fun _ => rfl) (fun _ _ => rfl), List.filterMap_cons, hsender]
    rfl
  · rw [List.filterMap_append, List.filterMap_append, filterMap_sinks (fun _ => rfl)
      (fun _ => rfl) (fun _ _ => rfl), List.filterMap_cons]
    exact List.append_nil _

/-! ## The two compared

The bits are the same on both sides, by the transport. What is left is that both cut the
same fields out of them and extend the same signs, which is where type 4 goes apart. -/

/-- `r_buffer` after the letters of a message. -/
theorem payloadBits_holds {p : List Bool} (hlen : p.length = 168) (rBuffer : RBuffer) :
    HoldsBits (splice rBuffer 0 (payloadBits (lettersOf p))) 0 p := by
  rw [payloadBits, dearmour_lettersOf (by omega)]
  exact holdsBits_splice rBuffer (by omega)

section Compared

variable (cfg : Config) (receivedT : ℤ) (p : List Bool) (hlen : p.length = 168)
  (hskip : cfg.skipType (field p 0 6) = false) (d : DemodState) (hframe : HoldsBits d.rbuffer 0 p)
  (aisline : AisLine) (hline : HoldsAt aisline 0 (lettersOf p ++ [0])) (rBuffer : RBuffer)
  (data : ShipData)

/-- The daemon prints `sender` and `printed`, the window stores `sender` and
`stored`. -/
def Decoded (sender : ℕ) (printed stored : Fix) : Prop :=
  ∃ d' calls rBuffer' data',
    protodecGetdata cfg receivedT 168 d = some (d', calls) ∧
    aisdecode aisline rBuffer data = some (168, rBuffer', data') ∧
    calls.filterMap Call.sender = [sender] ∧ calls.filterMap Call.fix = [printed] ∧
    data'.mmsi = sender ∧ data'.fix = stored

include hlen hskip hframe hline

/-- A vessel's report is decoded to the same fix twice. -/
theorem decoded_vessel (htype : field p 0 6 = 1 ∨ field p 0 6 = 2 ∨ field p 0 6 = 3) :
    ∃ fix, Decoded cfg receivedT d aisline rBuffer data (field p 8 30) fix fix := by
  have hletters : (lettersOf p).length = 28 := by
    rw [length_lettersOf, hlen]
  have hdecode := aisdecode_eq hline (fun c => isLetter_of_mem) (by omega) rBuffer data
  have hholds := payloadBits_holds hlen rBuffer
  obtain ⟨hmmsi, hfix⟩ := decodedShip_vessel hholds hlen data htype
  obtain ⟨messages, hmessages, hnosender, hprinted⟩ :=
    protodecPos_fix hframe hlen cfg receivedT (field p 8 30)
  have hcalls : messageCalls cfg (field p 0 6) 168 d.rbuffer receivedT (field p 8 30) =
      some messages := by
    rcases htype with h | h | h <;> rw [h] <;> exact hmessages
  obtain ⟨d', calls, hgetdata, hsender, hfixes⟩ := getdata_fix hframe hlen
    (by rcases htype with h | h | h <;> rw [h] <;> decide) hskip hcalls hnosender
  rw [hletters] at hdecode
  exact ⟨_, d', calls, _, _, hgetdata, hdecode, hsender, hfixes.trans hprinted, hmmsi, hfix⟩

/-- A base station's report is decoded to two fixes. -/
theorem decoded_station (htype : field p 0 6 = 4) :
    Decoded cfg receivedT d aisline rBuffer data (field p 8 30)
      ⟨some (longitudeOf (field p 79 28)), some (latitudeOf (field p 107 27)), none⟩
      ⟨some (longitudeOf (field p 79 28)), some (field p 107 27), none⟩ := by
  have hletters : (lettersOf p).length = 28 := by
    rw [length_lettersOf, hlen]
  have hdecode := aisdecode_eq hline (fun c => isLetter_of_mem) (by omega) rBuffer data
  have hholds := payloadBits_holds hlen rBuffer
  obtain ⟨hmmsi, hfix⟩ := decodedShip_station hholds hlen data htype
  obtain ⟨messages, hmessages, hnosender, hprinted⟩ :=
    protodec4_fix hframe hlen cfg receivedT (field p 8 30)
  obtain ⟨d', calls, hgetdata, hsender, hfixes⟩ := getdata_fix hframe hlen
    (by rw [htype]; decide) hskip (by rw [htype]; exact hmessages) hnosender
  rw [hletters] at hdecode
  exact ⟨d', calls, _, _, hgetdata, hdecode, hsender, hfixes.trans hprinted, hmmsi, hfix⟩

end Compared

/-- The window stores what the daemon prints for every position report, except for a base
station whose latitude is negative: `type1`, `protodec_pos` and `protodec_4` take the
first bit of the latitude as its sign, `type4` does not. The latitude of a station south
of the equator is stored as a large positive number. -/
theorem positions_agree_iff (cfg : Config) (receivedT : ℤ) (p : List Bool) (hlen : p.length = 168)
    (htype : field p 0 6 = 1 ∨ field p 0 6 = 2 ∨ field p 0 6 = 3 ∨ field p 0 6 = 4)
    (hskip : cfg.skipType (field p 0 6) = false) (d : DemodState)
    (hframe : HoldsBits d.rbuffer 0 p) (aisline : AisLine)
    (hline : HoldsAt aisline 0 (lettersOf p ++ [0])) (rBuffer : RBuffer) (data : ShipData) :
    ∃ d' calls rBuffer' data',
      protodecGetdata cfg receivedT 168 d = some (d', calls) ∧
      aisdecode aisline rBuffer data = some (168, rBuffer', data') ∧
      ((calls.filterMap Call.sender = [data'.mmsi] ∧ calls.filterMap Call.fix = [data'.fix]) ↔
        ¬ (field p 0 6 = 4 ∧ p[107]? = some true)) := by
  by_cases hstation : field p 0 6 = 4
  · obtain ⟨d', calls, rBuffer', data', hgetdata, hdecode, hsender, hprinted, hmmsi, hfix⟩ :=
      decoded_station cfg receivedT p hlen hskip d hframe aisline hline rBuffer data hstation
    refine ⟨d', calls, rBuffer', data', hgetdata, hdecode, ?_⟩
    have hlt : field p 107 27 < 2 ^ 27 := field_lt (by omega)
    have htop : 2 ^ 26 ≤ field p 107 27 ↔ p[107]? = some true := field_top (by omega)
    rw [hsender, hprinted, hmmsi, hfix, latitudeOf_eq hlt, ← htop]
    simp only [hstation, true_and, List.cons.injEq, Fix.mk.injEq, Option.some.injEq, and_true,
      not_le]
    split <;> omega
  · obtain ⟨fix, d', calls, rBuffer', data', hgetdata, hdecode, hsender, hprinted, hmmsi, hfix⟩ :=
      decoded_vessel cfg receivedT p hlen hskip d hframe aisline hline rBuffer data (by omega)
    refine ⟨d', calls, rBuffer', data', hgetdata, hdecode, ?_⟩
    rw [hsender, hprinted, hmmsi, hfix]
    exact ⟨fun _ h => hstation h.1, fun _ => ⟨rfl, rfl⟩⟩

/-- An `aisline` with the letters of some bits. -/
def lineOf (p : List Bool) : AisLine := splice (Vector.replicate _ 0) 0 (lettersOf p ++ [0])

theorem lineOf_holds {p : List Bool} (hlen : p.length = 168) :
    HoldsAt (lineOf p) 0 (lettersOf p ++ [0]) :=
  holdsAt_splice _ _ (by
    rw [List.length_append, length_lettersOf, hlen]
    decide)

/-- A vessel at 60 degrees north, 10 degrees west, under way at 12.3 knots to the east. -/
def westernVessel : List Bool :=
  toBits 6 1 ++ toBits 2 0 ++ toBits 30 257001234 ++ toBits 4 5 ++ toBits 8 3 ++ toBits 10 123 ++
    toBits 1 1 ++ toBits 28 (2 ^ 28 - 6000000) ++ toBits 27 36000000 ++ toBits 12 900 ++
    toBits 9 91 ++ toBits 6 17 ++ toBits 25 12345

theorem positions_agree_iff_west :
    westernVessel.length = 168 ∧ field westernVessel 0 6 = 1 ∧ ∃ d' calls rBuffer' data',
      protodecGetdata .silent 0 168 (decoding westernVessel) = some (d', calls) ∧
      aisdecode (lineOf westernVessel) (.replicate _ 0)
        ⟨0, 0, .lit 0, .lit 0, .lit 0, .lit 0, .lit 0⟩ = some (168, rBuffer', data') ∧
      ((calls.filterMap Call.sender = [data'.mmsi] ∧ calls.filterMap Call.fix = [data'.fix]) ↔
        ¬ (field westernVessel 0 6 = 4 ∧ westernVessel[107]? = some true)) :=
  ⟨by decide +kernel, by decide +kernel,
    positions_agree_iff .silent 0 _ (by decide +kernel) (.inl (by decide +kernel)) rfl _
      (holdsBits_splice _ (by decide +kernel)) _ (lineOf_holds (by decide +kernel)) _ _⟩

/-- A base station whose latitude is the most negative one. -/
def southernStation : List Bool :=
  toBits 6 4 ++ List.replicate 101 false ++ true :: List.replicate 60 false

theorem length_southernStation : southernStation.length = 168 := by decide +kernel

/-- The window puts it as far north as it is south. -/
theorem southern_station_moved :
    Decoded .silent 0 (decoding southernStation) (lineOf southernStation) (.replicate _ 0)
      ⟨0, 0, .lit 0, .lit 0, .lit 0, .lit 0, .lit 0⟩ 0
      ⟨some 0, some (-67108864), none⟩ ⟨some 0, some 67108864, none⟩ := by
  have htype : field southernStation 0 6 = 4 := by decide +kernel
  have hsender : field southernStation 8 30 = 0 := by decide +kernel
  have hlon : field southernStation 79 28 = 0 := by decide +kernel
  have hlat : field southernStation 107 27 = 67108864 := by decide +kernel
  have hframe : HoldsBits (decoding southernStation).rbuffer 0 southernStation :=
    holdsBits_splice _ (by rw [length_southernStation]; decide)
  have hdecoded := decoded_station .silent 0 southernStation length_southernStation rfl _ hframe _
    (lineOf_holds length_southernStation) (.replicate _ 0)
    ⟨0, 0, .lit 0, .lit 0, .lit 0, .lit 0, .lit 0⟩ htype
  rw [hsender, hlon, hlat] at hdecoded
  exact hdecoded

end Gnuais
