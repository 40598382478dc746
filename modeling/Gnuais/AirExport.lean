import Gnuais.RadioLink
import Gnuais.PositionReports
import Gnuais.Exported

/-!
# From the air to the export

A position report goes through all of the program: samples, symbols, bits, the frame,
its fields, the cache and the next JSON export. `air_to_export` says that it arrives, in
whatever traffic the frame stands, unless its sender sends again.

Which entry of the cache a frame can change is settled for all message types at once:
`messageCalls_isFor` says that a decoder writes to the entry of the sender only.
-/

namespace Gnuais

open Buffer Bits Layout

/-! ## Whose entry is written

Every decoder reads the sender from the same place and passes it on to every call. One
lemma a decoder; a binary message is passed down to the functions for its contents. -/

/-- The call writes to the entry of this MMSI, if it writes to the cache. -/
def Call.IsFor (mmsi : ℕ) : Call → Prop
  | .cache call => call.mmsi = Int32.ofNat mmsi
  | _ => True

section IsFor

variable {cfg : Config} {rbuffer : Frame} {receivedT : ℤ} {mmsi : ℕ} {calls : List Call}

/-- The decoders, one by one. -/
theorem protodecPos_isFor (h : protodecPos cfg rbuffer receivedT mmsi = some calls) :
    ∀ c ∈ calls, c.IsFor mmsi := by
  simp only [protodecPos, Option.bind_eq_bind, Option.bind_eq_some_iff] at h
  obtain ⟨_, -, _, -, _, -, _, -, _, -, _, -, _, -, h⟩ := h
  obtain rfl := Option.some.inj h
  simp [forall_mem_callIf, or_imp, forall_and, Call.IsFor, CacheCall.mmsi]

theorem protodec4_isFor (h : protodec4 cfg rbuffer receivedT mmsi = some calls) :
    ∀ c ∈ calls, c.IsFor mmsi := by
  simp only [protodec4, Option.bind_eq_bind, Option.bind_eq_some_iff] at h
  obtain ⟨_, -, _, -, _, -, _, -, _, -, _, -, _, -, _, -, h⟩ := h
  obtain rfl := Option.some.inj h
  simp [forall_mem_callIf, or_imp, forall_and, Call.IsFor, CacheCall.mmsi]

theorem protodec18_isFor (h : protodec18 cfg rbuffer receivedT mmsi = some calls) :
    ∀ c ∈ calls, c.IsFor mmsi := by
  simp only [protodec18, Option.bind_eq_bind, Option.bind_eq_some_iff] at h
  obtain ⟨_, -, _, -, _, -, _, -, _, -, h⟩ := h
  obtain rfl := Option.some.inj h
  simp [forall_mem_callIf, or_imp, forall_and, Call.IsFor, CacheCall.mmsi]

theorem protodec5_isFor (h : protodec5 cfg rbuffer receivedT mmsi = some calls) :
    ∀ c ∈ calls, c.IsFor mmsi := by
  simp only [protodec5, Option.bind_eq_bind, Option.bind_eq_some_iff] at h
  obtain ⟨_, -, _, -, _, -, _, -, _, -, _, -, _, -, _, -, _, -, _, -, h⟩ := h
  obtain rfl := Option.some.inj h
  simp [forall_mem_callIf, or_imp, forall_and, Call.IsFor, CacheCall.mmsi]

theorem protodec19_isFor (h : protodec19 cfg rbuffer receivedT mmsi = some calls) :
    ∀ c ∈ calls, c.IsFor mmsi := by
  simp only [protodec19, Option.bind_eq_bind, Option.bind_eq_some_iff] at h
  obtain ⟨_, -, _, -, _, -, _, -, _, -, _, -, h⟩ := h
  obtain rfl := Option.some.inj h
  simp [forall_mem_callIf, or_imp, forall_and, Call.IsFor, CacheCall.mmsi]

theorem protodec24_isFor (h : protodec24 cfg rbuffer receivedT mmsi = some calls) :
    ∀ c ∈ calls, c.IsFor mmsi := by
  simp only [protodec24, Option.bind_eq_bind, Option.bind_eq_some_iff] at h
  obtain ⟨partnr, -, h⟩ := h
  split at h
  · simp only [protodec24PartA, Option.bind_eq_bind, Option.bind_eq_some_iff] at h
    obtain ⟨_, -, h⟩ := h
    obtain rfl := Option.some.inj h
    simp [forall_mem_callIf, or_imp, forall_and, Call.IsFor, CacheCall.mmsi]
  · split at h
    · simp only [protodec24PartB, Option.bind_eq_bind, Option.bind_eq_some_iff] at h
      obtain ⟨_, -, _, -, _, -, _, -, _, -, _, -, h⟩ := h
      obtain rfl := Option.some.inj h
      simp [forall_mem_callIf, or_imp, forall_and, Call.IsFor, CacheCall.mmsi]
    · obtain rfl := Option.some.inj h
      simp

theorem protodecMsgBin_isFor {appidFi msgStart : ℕ}
    (h : protodecMsgBin cfg rbuffer appidFi msgStart receivedT mmsi = some calls) :
    ∀ c ∈ calls, c.IsFor mmsi := by
  rw [protodecMsgBin] at h
  split at h
  · unfold protodecMsg11 at h
    iterate 15 obtain ⟨_, -, h⟩ := Option.bind_eq_some_iff.mp h
    obtain rfl := Option.some.inj h
    simp [Call.IsFor]
  · split at h
    · simp only [protodecMsg40, Option.bind_eq_bind, Option.bind_eq_some_iff] at h
      obtain ⟨_, -, h⟩ := h
      obtain rfl := Option.some.inj h
      simp [forall_mem_callIf, or_imp, forall_and, Call.IsFor, CacheCall.mmsi]
    · obtain rfl := Option.some.inj h
      simp

theorem protodec6_isFor (h : protodec6 cfg rbuffer receivedT mmsi = some calls) :
    ∀ c ∈ calls, c.IsFor mmsi := by
  simp only [protodec6, Option.bind_eq_bind, Option.bind_eq_some_iff] at h
  obtain ⟨_, -, _, -, _, -, _, -, _, -, _, -, h⟩ := h
  split at h
  · obtain ⟨bin, hbin, h⟩ := Option.bind_eq_some_iff.mp h
    obtain rfl := Option.some.inj h
    simpa [Call.IsFor] using protodecMsgBin_isFor hbin
  · obtain rfl := Option.some.inj h
    simp [Call.IsFor]

theorem protodec8_isFor (h : protodec8 cfg rbuffer receivedT mmsi = some calls) :
    ∀ c ∈ calls, c.IsFor mmsi := by
  simp only [protodec8, Option.bind_eq_bind, Option.bind_eq_some_iff] at h
  obtain ⟨_, -, _, -, _, -, h⟩ := h
  split at h
  · obtain ⟨bin, hbin, h⟩ := Option.bind_eq_some_iff.mp h
    obtain rfl := Option.some.inj h
    simpa [Call.IsFor] using protodecMsgBin_isFor hbin
  · obtain rfl := Option.some.inj h
    simp [Call.IsFor]

/-- The calls that only print are for everyone. -/
theorem protodec713Loop_isFor {bufferlen left : ℕ} : ∀ {i pos : ℕ} {calls : List Call},
    protodec713Loop bufferlen rbuffer left i pos = some calls → ∀ c ∈ calls, c.IsFor mmsi := by
  induction left with
  | zero =>
    intro i pos calls h
    obtain rfl := Option.some.inj h
    simp
  | succ left ih =>
    intro i pos calls h
    rw [protodec713Loop] at h
    split at h
    · simp only [Option.bind_eq_bind, Option.bind_eq_some_iff] at h
      obtain ⟨_, -, _, -, rest, hrest, h⟩ := h
      obtain rfl := Option.some.inj h
      simpa [Call.IsFor] using ih hrest
    · obtain rfl := Option.some.inj h
      simp

theorem protodec713_isFor {bufferlen : ℕ} (h : protodec713 bufferlen rbuffer = some calls) :
    ∀ c ∈ calls, c.IsFor mmsi := by
  obtain ⟨acks, hacks, h⟩ := Option.bind_eq_some_iff.mp h
  obtain rfl := Option.some.inj h
  simpa [Call.IsFor] using protodec713Loop_isFor hacks

theorem protodec20Loop_isFor {bufferlen left : ℕ} : ∀ {i pos : ℕ} {calls : List Call},
    protodec20Loop bufferlen rbuffer left i pos = some calls → ∀ c ∈ calls, c.IsFor mmsi := by
  induction left with
  | zero =>
    intro i pos calls h
    obtain rfl := Option.some.inj h
    simp
  | succ left ih =>
    intro i pos calls h
    rw [protodec20Loop] at h
    split at h
    · simp only [Option.bind_eq_bind, Option.bind_eq_some_iff] at h
      obtain ⟨_, -, _, -, _, -, _, -, rest, hrest, h⟩ := h
      obtain rfl := Option.some.inj h
      simpa [Call.IsFor] using ih hrest
    · obtain rfl := Option.some.inj h
      simp

/-- Whatever the type of the message, only the entry of its sender is written. -/
theorem messageCalls_isFor {type bufferlen : ℕ}
    (h : messageCalls cfg type bufferlen rbuffer receivedT mmsi = some calls) :
    ∀ c ∈ calls, c.IsFor mmsi := by
  unfold messageCalls at h
  split at h
  · exact protodecPos_isFor h
  · exact protodecPos_isFor h
  · exact protodecPos_isFor h
  · exact protodec4_isFor h
  · exact protodec5_isFor h
  · exact protodec6_isFor h
  · exact protodec713_isFor h
  · exact protodec713_isFor h
  · exact protodec8_isFor h
  · exact protodec18_isFor h
  · exact protodec19_isFor h
  · exact protodec24_isFor h
  · exact protodec20Loop_isFor h
  · obtain rfl := Option.some.inj h
    simp

end IsFor

/-! ## What a frame writes to the cache

The frame of a sender is the octets with their check sequence. Behind the deframer it is
the array `rbuffer`, with zeros behind the bits, and the decoders read their fields from
there. -/

/-- The calls of the cache among some calls. -/
def cacheCalls (calls : List Call) : List CacheCall :=
  calls.filterMap fun
    | .cache call => some call
    | _ => none

/-- Those of two stretches. -/
theorem cacheCalls_append (cs cs' : List Call) :
    cacheCalls (cs ++ cs') = cacheCalls cs ++ cacheCalls cs' := List.filterMap_append

/-- A call of the cache is one of the calls. -/
theorem mem_cacheCalls {calls : List Call} {call : CacheCall} :
    call ∈ cacheCalls calls ↔ .cache call ∈ calls := by
  rw [cacheCalls, List.mem_filterMap]
  constructor
  · rintro ⟨c, hc, hcall⟩
    cases c with
    | cache call' =>
      obtain rfl := Option.some.inj hcall
      exact hc
    | _ => cases hcall
  · exact fun hmem => ⟨_, hmem, rfl⟩

/-- Sentences do not write to the cache. -/
theorem cacheCalls_sinks (cfg : Config) (serial ipc : Bool) (receivedT : ℤ)
    (bodies : List (List UInt8)) :
    cacheCalls (bodies.flatMap (sinkCalls cfg serial ipc receivedT)) = [] := by
  induction bodies with
  | nil => rfl
  | cons body bodies ih =>
    rw [List.flatMap_cons, cacheCalls_append, ih, List.append_nil, sinkCalls]
    cases serial <;> cases ipc <;> cases cfg.my <;> rfl

/-- The calls of the cache that handling a frame makes are those of the decoder for its
type. There are none if the type is skipped. -/
theorem getdataObs_messageCalls {cfg : Config} {receivedT : ℤ} {bufferlen : ℕ} {rbuffer : Frame}
    {chanid seqnr seqnr' : UInt8} {serial ipc : Bool} {calls : List Call}
    (h : getdataObs cfg receivedT bufferlen rbuffer chanid seqnr serial ipc =
      some (calls, seqnr')) {call : CacheCall} (hcall : call ∈ cacheCalls calls) :
    cfg.skipType (cUChar (hentenVal 0 6 rbuffer)) = false ∧
      ∃ filled padded messages, messageCalls cfg (cUChar (hentenVal 0 6 rbuffer)) filled padded
        receivedT (hentenVal 8 30 rbuffer) = some messages ∧ .cache call ∈ messages := by
  rw [getdataObs] at h
  simp only [Option.bind_eq_bind, Option.pure_def] at h
  generalize cUChar (hentenVal 0 6 rbuffer) = type at h ⊢
  by_cases htype : type < 1 ∨ type > maxAisPacketType
  · rw [if_pos htype] at h
    obtain ⟨rfl, -⟩ := Prod.mk.inj (Option.some.inj h)
    cases hcall
  rw [if_neg htype] at h
  obtain ⟨padded, -, h⟩ := Option.bind_eq_some_iff.mp h
  obtain ⟨bodies, -, h⟩ := Option.bind_eq_some_iff.mp h
  cases hskip : cfg.skipType type with
  | true =>
    rw [hskip, if_pos rfl] at h
    obtain ⟨rfl, -⟩ := Prod.mk.inj (Option.some.inj h)
    rw [cacheCalls_sinks] at hcall
    cases hcall
  | false =>
    rw [hskip, if_neg Bool.false_ne_true] at h
    obtain ⟨messages, hmessages, h⟩ := Option.bind_eq_some_iff.mp h
    obtain ⟨rfl, -⟩ := Prod.mk.inj (Option.some.inj h)
    rw [cacheCalls_append, cacheCalls_append, cacheCalls_sinks, List.nil_append,
      List.mem_append] at hcall
    rcases hcall with hcall | hcall
    · exact ⟨rfl, _, _, messages, hmessages,
        (List.mem_cons.mp (mem_cacheCalls.mp hcall)).resolve_left Call.noConfusion⟩
    · cases hcall

/-- Handling a frame writes to the entry of its sender only, and nothing if its type is
skipped. -/
theorem getdataObs_isFor {cfg : Config} {receivedT : ℤ} {bufferlen : ℕ} {rbuffer : Frame}
    {chanid seqnr seqnr' : UInt8} {serial ipc : Bool} {calls : List Call}
    (h : getdataObs cfg receivedT bufferlen rbuffer chanid seqnr serial ipc =
      some (calls, seqnr')) :
    ∀ call ∈ cacheCalls calls, cfg.skipType (cUChar (hentenVal 0 6 rbuffer)) = false ∧
      call.mmsi = Int32.ofNat (hentenVal 8 30 rbuffer) := by
  intro call hcall
  obtain ⟨hskip, _, _, messages, hmessages, hmem⟩ := getdataObs_messageCalls h hcall
  exact ⟨hskip, messageCalls_isFor hmessages (.cache call) hmem⟩

/-- The bits of the octets as they stand in `rbuffer`, with zeros behind them. -/
def SentFrame.payload (f : SentFrame) : List Bool :=
  f.octets.flatMap octetBE ++ List.replicate (demodBufferLen - 8 * f.octets.length) false

/-- What stands in the place of the type. -/
def SentFrame.type (f : SentFrame) : ℕ := field f.payload 0 6

/-- What stands in the place of the MMSI. -/
def SentFrame.mmsi (f : SentFrame) : ℕ := field f.payload 8 30

/-- The message with this layout is at the front of the octets. -/
def SentFrame.Carries (f : SentFrame) (fields : List Field) : Prop :=
  pack fields <+: f.octets.flatMap octetBE

/-- Eight bits an octet. -/
theorem length_octetBits (octets : List UInt8) : (octets.flatMap octetBE).length = 8 * octets.length := by
  rw [List.length_flatMap]
  simp [mul_comm]

/-- As many bits as the array has. -/
theorem SentFrame.length_payload (f : SentFrame) : f.payload.length = demodBufferLen := by
  have hsize : demodBufferLen = 450 := rfl
  have hfits := f.fits
  rw [payload, List.length_append, List.length_replicate, length_octetBits]
  omega

/-- The array has the bits of the frame. -/
theorem SentFrame.holds_payload (f : SentFrame) : HoldsBits (rbufferOf f.octets) 0 f.payload := by
  have hsize : demodBufferLen = 450 := rfl
  have hfits := f.fits
  have hlen := length_octetBits f.octets
  have hroom : 0 + ((f.octets.flatMap octetBE).map byte).length ≤ demodBufferLen := by
    rw [List.length_map, hlen]
    change _ ≤ 450
    omega
  intro i hi
  rw [f.length_payload] at hi
  rw [rbufferOf, getElem?_splice _ _ _ _ hroom, List.length_map, hlen, payload, Nat.zero_add,
    Nat.sub_zero]
  by_cases hoctet : i < 8 * f.octets.length
  · rw [if_pos ⟨Nat.zero_le i, by omega⟩, List.getElem?_append_left (by omega), List.getElem?_map]
  · rw [if_neg (by omega), List.getElem?_append_right (by omega), List.getElem?_replicate,
      if_pos (by omega), Vector.getElem?_replicate, if_pos hi]
    rfl

/-- The type that a decoder reads. -/
theorem SentFrame.type_eq (f : SentFrame) : cUChar (hentenVal 0 6 (rbufferOf f.octets)) = f.type := by
  have hlen : 0 + 6 ≤ f.payload.length := by
    rw [f.length_payload]
    decide
  rw [hentenVal_field f.holds_payload hlen]
  exact Nat.mod_eq_of_lt (Nat.lt_of_lt_of_le (field_lt hlen) (by decide))

/-- The sender that a decoder reads. -/
theorem SentFrame.mmsi_eq (f : SentFrame) : hentenVal 8 30 (rbufferOf f.octets) = f.mmsi :=
  hentenVal_field f.holds_payload (by rw [f.length_payload]; decide)

/-- It has 30 bits. -/
theorem SentFrame.mmsi_lt (f : SentFrame) : f.mmsi < 2 ^ 30 :=
  field_lt (by rw [f.length_payload]; decide)

/-- A message at the front of the octets is in `rbuffer`. -/
theorem SentFrame.Carries.holds {f : SentFrame} {fields : List Field} (h : f.Carries fields) :
    HoldsBits (rbufferOf f.octets) 0 (pack fields) := by
  obtain ⟨rest, hrest⟩ := h
  intro i hi
  rw [f.holds_payload i (by rw [payload, ← hrest]; simp only [List.length_append]; omega), payload,
    ← hrest, List.append_assoc, List.getElem?_append_left hi]

/-- What closing a sent frame calls. -/
theorem close_collected {cfg : Config} {clock : ℕ → ℤ} {f : SentFrame} {y y' : Tally}
    {calls : List Call} (h : close cfg clock (.frame f.collected) y = some (y', calls)) :
    ∃ calls', getdataObs cfg (clock y.receivedframes) (8 * f.octets.length) (rbufferOf f.octets)
        y.chanid y.seqnr y.serial y.ipc = some (calls', y'.seqnr) ∧
      cacheCalls calls = cacheCalls calls' := by
  obtain ⟨-, ⟨hnone, -, -⟩ | ⟨payload, calls', hframe, haccepted, hobs, rfl⟩⟩ := close_cases h
  · rw [f.accepted_collected] at hnone
    cases hnone
  · rw [f.accepted_collected] at haccepted
    obtain ⟨hlen, hbuffer⟩ := Prod.mk.inj (List.cons.inj haccepted).1
    rw [← hlen, ← hbuffer] at hobs
    exact ⟨calls', hobs, rfl⟩

/-- Frames write to the entries of their senders only, and those of a type that is skipped
write nothing. -/
theorem closeAll_isFor {cfg : Config} {clock : ℕ → ℤ} (frames : List SentFrame) :
    ∀ {y y' : Tally} {calls : List Call},
      closeAll cfg clock (frames.map fun f => .frame f.collected) y = some (y', calls) →
      ∀ call ∈ cacheCalls calls, ∃ f ∈ frames,
        cfg.skipType f.type = false ∧ call.mmsi = Int32.ofNat f.mmsi := by
  induction frames with
  | nil =>
    intro y y' calls h call hcall
    obtain ⟨-, rfl⟩ := Prod.mk.inj (Option.some.inj h)
    cases hcall
  | cons f frames ih =>
    intro y y' calls h call hcall
    obtain ⟨⟨y₁, calls₁⟩, hclose, h⟩ := Option.bind_eq_some_iff.mp h
    obtain ⟨⟨y₂, calls₂⟩, hrest, h⟩ := Option.bind_eq_some_iff.mp h
    obtain ⟨-, rfl⟩ := Prod.mk.inj (Option.some.inj h)
    rw [cacheCalls_append, List.mem_append] at hcall
    rcases hcall with hcall | hcall
    · obtain ⟨calls', hobs, hcache⟩ := close_collected hclose
      rw [hcache] at hcall
      have hfor := getdataObs_isFor hobs call hcall
      rw [f.type_eq, f.mmsi_eq] at hfor
      exact ⟨f, List.mem_cons_self .., hfor⟩
    · obtain ⟨g, hg, hmmsi⟩ := ih hrest call hcall
      exact ⟨g, List.mem_cons_of_mem _ hg, hmmsi⟩

/-! ## Position reports

The three layouts have the coordinates in different places. `AirReport` takes them
together, so that what follows is said once for all of them. -/

/-- A message with a position. -/
inductive AirReport where
  /-- types 1, 2 and 3 -/
  | vessel (m : PositionReport)
  /-- type 4 -/
  | station (m : StationReport)
  /-- type 18 -/
  | classB (m : ClassBReport)

namespace AirReport

def type : AirReport → BitVec 6
  | vessel m => m.type
  | station _ => 4
  | classB _ => 18

def mmsi : AirReport → BitVec 30
  | vessel m => m.mmsi
  | station m => m.mmsi
  | classB m => m.mmsi

def longitude : AirReport → BitVec 28
  | vessel m => m.longitude
  | station m => m.longitude
  | classB m => m.longitude

def latitude : AirReport → BitVec 27
  | vessel m => m.latitude
  | station m => m.latitude
  | classB m => m.latitude

def layout : AirReport → List Field
  | vessel m => m.layout
  | station m => m.layout
  | classB m => m.layout

/-- The coordinates in degrees, as the decoders compute them. -/
def lat (m : AirReport) : FloatExpr := scaled m.latitude.toInt 600000

def lon (m : AirReport) : FloatExpr := scaled m.longitude.toInt 600000

theorem known (m : AirReport) : 1 ≤ m.type.toNat ∧ m.type.toNat ≤ maxAisPacketType := by
  cases m with
  | vessel m => rcases m.isPosition with h | h | h <;> rw [type, h] <;> decide
  | station m => exact (by decide : 1 ≤ (4#6).toNat ∧ (4#6).toNat ≤ maxAisPacketType)
  | classB m => exact (by decide : 1 ≤ (18#6).toNat ∧ (18#6).toNat ≤ maxAisPacketType)

/-- All three begin with the type and the sender. -/
theorem layout_eq (m : AirReport) : ∃ (repeatIndicator : BitVec 2) (rest : List Field),
    m.layout = .number m.type :: .number repeatIndicator :: .number m.mmsi :: rest := by
  cases m <;> exact ⟨_, _, rfl⟩

/-- The type and the sender are at the front of all of them. -/
theorem hentenVal_head (m : AirReport) {rbuffer : Frame} (h : HoldsBits rbuffer 0 (pack m.layout)) :
    cUChar (hentenVal 0 6 rbuffer) = m.type.toNat ∧ hentenVal 8 30 rbuffer = m.mmsi.toNat := by
  obtain ⟨repeatIndicator, rest, hlayout⟩ := m.layout_eq
  have hlen : 38 ≤ (pack m.layout).length := by
    rw [hlayout, length_pack, width_cons, width_cons, width_cons, width_number, width_number,
      width_number]
    omega
  have htype : field (pack m.layout) 0 6 = m.type.toNat := by
    rw [hlayout]
    exact field_number (i := 0) rfl rfl
  have hmmsi : field (pack m.layout) 8 30 = m.mmsi.toNat := by
    rw [hlayout]
    exact field_number (i := 2) rfl rfl
  rw [hentenVal_field h (by omega), hentenVal_field h hlen, htype]
  exact ⟨Nat.mod_eq_of_lt (Nat.lt_of_lt_of_le m.type.isLt (by decide)), hmmsi⟩

/-- Of the calls of a position report one goes to the cache. -/
theorem cacheCalls_report {c c₁ c₂ : Call} {call : CacheCall} {b₁ b₂ : Bool}
    (h : cacheCalls [c] = []) (h₁ : cacheCalls [c₁] = []) (h₂ : cacheCalls [c₂] = []) :
    cacheCalls (c :: callIf b₁ c₁ ++ callIf true (.cache call) ++ callIf b₂ c₂) = [call] := by
  have hif : ∀ {b c}, cacheCalls [c] = [] → cacheCalls (callIf b c) = [] := by
    intro b c hc
    cases b
    · rfl
    · exact hc
  rw [cacheCalls_append, cacheCalls_append, ← List.singleton_append, cacheCalls_append, h, hif h₁,
    hif h₂]
  rfl

/-- The three kinds, one by one. -/
theorem cacheCalls_positionCalls {cfg : Config} (hcache : cfg.cachePositions = true)
    (receivedT : ℤ) (mmsi : ℕ) (r : PositionReading) :
    cacheCalls (positionCalls cfg receivedT mmsi r) =
      [.position receivedT (Int32.ofNat mmsi) r.navstat (scaled r.latitude 600000)
        (scaled r.longitude 600000) r.heading (scaled r.course 10) r.rateofturn
        (scaled r.sog 10)] := by
  rw [positionCalls, hcache]
  exact cacheCalls_report rfl rfl rfl

theorem cacheCalls_stationCalls {cfg : Config} (hcache : cfg.cachePositions = true)
    (receivedT : ℤ) (mmsi : ℕ) (r : StationReading) :
    cacheCalls (stationCalls cfg receivedT mmsi r) =
      [.position receivedT (Int32.ofNat mmsi) 0 (scaled r.latitude 600000)
        (scaled r.longitude 600000) 0 (.lit 0) 0 (.lit 0)] := by
  rw [stationCalls, hcache]
  exact cacheCalls_report rfl rfl rfl

/-- The cache gets one call for each of them, with the position. -/
theorem messageCalls_position (m : AirReport) {cfg : Config} (hcache : cfg.cachePositions = true)
    (bufferlen : ℕ) (receivedT : ℤ) {rbuffer : Frame} (h : HoldsBits rbuffer 0 (pack m.layout)) :
    ∃ calls call, messageCalls cfg m.type.toNat bufferlen rbuffer receivedT m.mmsi.toNat =
        some calls ∧
      cacheCalls calls = [call] ∧ call.mmsi = Int32.ofNat m.mmsi.toNat ∧
      call.latLon = some (m.lat, m.lon) := by
  cases m with
  | vessel m =>
    have hpos := protodecPos_layout cfg receivedT m.mmsi.toNat m h
    refine ⟨_, _, ?_, cacheCalls_positionCalls hcache receivedT m.mmsi.toNat m.read, rfl, rfl⟩
    rcases m.isPosition with htype | htype | htype <;> rw [type, htype] <;> exact hpos
  | station m =>
    exact ⟨_, _, protodec4_layout cfg receivedT m.mmsi.toNat m h,
      cacheCalls_stationCalls hcache receivedT m.mmsi.toNat m.sent, rfl, rfl⟩
  | classB m =>
    exact ⟨_, _, protodec18_layout cfg receivedT m.mmsi.toNat m h,
      cacheCalls_positionCalls hcache receivedT m.mmsi.toNat m.sent, rfl, rfl⟩

end AirReport

/-- A frame with a report writes its position to the cache, and nothing else. -/
theorem getdataObs_position {m : AirReport} {f : SentFrame} (hcarries : f.Carries m.layout)
    {cfg : Config} (hcache : cfg.cachePositions = true) (hskip : cfg.skipType m.type.toNat = false)
    {receivedT : ℤ} {chanid seqnr seqnr' : UInt8} {serial ipc : Bool} {calls : List Call}
    (h : getdataObs cfg receivedT (8 * f.octets.length) (rbufferOf f.octets) chanid seqnr serial
      ipc = some (calls, seqnr')) :
    ∃ call, cacheCalls calls = [call] ∧ call.mmsi = Int32.ofNat m.mmsi.toNat ∧
      call.latLon = some (m.lat, m.lon) := by
  have hsize : demodBufferLen = 450 := rfl
  have hfits := f.fits
  have hfill := fillbitsOf_le (8 * f.octets.length)
  have hroom : 8 * f.octets.length + fillbitsOf (8 * f.octets.length) ≤ demodBufferLen := by omega
  have hholds := hcarries.holds
  obtain ⟨htype, hmmsi⟩ := m.hentenVal_head hholds
  have hlen : (pack m.layout).length ≤ 8 * f.octets.length := by
    rw [← length_octetBits]
    exact hcarries.length_le
  have hfilled : HoldsBits (splice (rbufferOf f.octets) (8 * f.octets.length)
      (List.replicate (fillbitsOf (8 * f.octets.length)) 0)) 0 (pack m.layout) := by
    intro i hi
    rw [getElem?_splice _ _ _ _ (by rw [List.length_replicate]; omega), if_neg (by omega)]
    exact hholds i hi
  obtain ⟨messages, call, hmessages, hcall, hfor, hposition⟩ := m.messageCalls_position hcache
    (8 * f.octets.length + fillbitsOf (8 * f.octets.length)) receivedT hfilled
  rw [← hmmsi] at hmessages
  obtain ⟨bodies, hobs⟩ := getdataObs_messages (rbufferOf f.octets) chanid seqnr serial ipc hroom
    htype m.known hskip hmessages
  obtain ⟨rfl, -⟩ := Prod.mk.inj (Option.some.inj (h.symm.trans hobs))
  refine ⟨call, ?_, hfor, hposition⟩
  rw [cacheCalls_append, cacheCalls_append, cacheCalls_sinks, ← List.singleton_append,
    cacheCalls_append, hcall]
  rfl

/-! ## All the way

The last position is that of the report, as no later call is for the same MMSI. With what
`Exported` says about the last position the way ends in the export. -/

/-- Numbers of 30 bits are different as `int`s if they are different. -/
theorem ofNat_inj_of_lt {i j : ℕ} (hi : i < 2 ^ 30) (hj : j < 2 ^ 30)
    (h : Int32.ofNat i = Int32.ofNat j) : i = j := by
  have hint := congrArg Int32.toInt h
  rw [Int32.toInt_ofNat_of_lt (by omega), Int32.toInt_ofNat_of_lt (by omega)] at hint
  exact Int.ofNat.inj hint

/-- The position of a call is the last one if no later call is for its MMSI. -/
theorem lastPosition_of_last {call : CacheCall} {lat lon : FloatExpr}
    (hposition : call.latLon = some (lat, lon)) (before : List CacheCall) {after : List CacheCall}
    (hafter : ∀ c ∈ after, c.mmsi ≠ call.mmsi) :
    lastPosition call.mmsi (before ++ call :: after) = some (lat, lon) := by
  have hnone : after.filter (fun c => c.mmsi = call.mmsi) = [] :=
    List.filter_eq_nil_iff.mpr fun c hc heq => hafter c hc (of_decide_eq_true heq)
  rw [lastPosition, List.filter_append, List.filter_cons, if_pos (decide_eq_true rfl), hnone,
    List.filterMap_append, List.filterMap_cons_some hposition, List.filterMap_nil,
    List.getLast?_concat]

/-- The calls behind a rotation. -/
theorem intervals_updates (past : List CacheOp) (calls : List CacheCall) :
    (intervals (past ++ [.rotate] ++ calls.map .update)).current = calls := by
  induction calls using List.reverseRecOn with
  | nil =>
    rw [List.map_nil, List.append_nil, intervals_concat]
    rfl
  | append_singleton calls call ih =>
    rw [List.map_append, ← List.append_assoc, List.map_singleton, intervals_concat, Intervals.step,
      ih]

/-- A position report is exported even if frames of its sender are behind it, as long as
their types are skipped. -/
theorem report_exported {cfg : Config} (hcache : cfg.cachePositions = true) (clock : ℕ → ℤ)
    (mem : Allocated) (serial ipc : Bool) (name : UInt8) {m : AirReport}
    (hskip : cfg.skipType m.type.toNat = false) (hmmsi : m.mmsi ≠ 0)
    (before after : List SentFrame) {f : SentFrame} (hcarries : f.Carries m.layout)
    (hlast : ∀ g ∈ after, g.mmsi ≠ m.mmsi.toNat ∨ cfg.skipType g.type = true)
    (hlead : ∀ g ∈ (before ++ f :: after).head?, 2 ≤ g.gap) {chunks : List (List Bool)}
    (hchunks : chunks.flatten = signal ((before ++ f :: after).flatMap SentFrame.bits))
    (hlen : ∀ c ∈ chunks, c.length ≤ filteredLen) (cacheMem : Memory) (past : List CacheOp) :
    ∃ rx bits calls r msgs s,
      receiverRuns cfg clock chunks (initReceiver mem serial ipc name) = some (rx, bits, calls) ∧
      cacheRun cacheMem (past ++ [.rotate] ++ (cacheCalls calls).map .update) = some r ∧
      jsonoutExport r.cache = some (msgs, s) ∧
      (PositionExported msgs (Int32.ofNat m.mmsi.toNat) m.lat m.lon ↔
        1 / 10000 < |m.lat.value| ∧ 1 / 10000 < |m.lon.value|) := by
  obtain ⟨rx, calls, hrun, hclose⟩ := receiverRuns_frames cfg clock mem serial ipc name hlead
    hchunks hlen
  -- the calls before, of and behind the frame
  rw [List.map_append, List.map_cons, closeAll_append] at hclose
  obtain ⟨⟨y₁, calls₁⟩, -, hclose⟩ := Option.bind_eq_some_iff.mp hclose
  obtain ⟨⟨y₃, rest⟩, hbehind, heq⟩ := Option.map_eq_some_iff.mp hclose
  obtain ⟨⟨y₂, calls₂⟩, hframe, hbehind⟩ := Option.bind_eq_some_iff.mp hbehind
  obtain ⟨⟨y₄, calls₃⟩, hafter, hrest⟩ := Option.bind_eq_some_iff.mp hbehind
  obtain ⟨-, rfl⟩ := Prod.mk.inj (Option.some.inj hrest)
  obtain ⟨-, rfl⟩ := Prod.mk.inj heq
  obtain ⟨calls', hobs, hsame⟩ := close_collected hframe
  obtain ⟨call, hcall, hfor, hposition⟩ := getdataObs_position hcarries hcache hskip hobs
  have hmmsi_lt := m.mmsi.isLt
  have hothers : ∀ c ∈ cacheCalls calls₃, c.mmsi ≠ call.mmsi := by
    intro c hc heq
    obtain ⟨g, hg, htype, hsender⟩ := closeAll_isFor after hafter c hc
    rcases hlast g hg with hother | hskipped
    · exact hother (ofNat_inj_of_lt g.mmsi_lt hmmsi_lt (hsender.symm.trans (heq.trans hfor)))
    · exact Bool.false_ne_true (htype.symm.trans hskipped)
  have hcache_calls : cacheCalls (calls₁ ++ (calls₂ ++ calls₃)) =
      cacheCalls calls₁ ++ call :: cacheCalls calls₃ := by
    rw [cacheCalls_append, cacheCalls_append, hsame, hcall]
    rfl
  have hposition' := lastPosition_of_last hposition (cacheCalls calls₁) hothers
  rw [← hcache_calls, hfor] at hposition'
  have hne : Int32.ofNat m.mmsi.toNat ≠ 0 := fun h =>
    hmmsi (BitVec.eq_of_toNat_eq (ofNat_inj_of_lt hmmsi_lt (by decide) h))
  obtain ⟨r, entries, s, hcacheRun, hexport, hsnapshot⟩ := jsonoutExport_spec cacheMem
    (past ++ [.rotate] ++ (cacheCalls (calls₁ ++ (calls₂ ++ calls₃))).map .update)
  rw [intervals_updates] at hsnapshot
  exact ⟨rx, _, _, r, _, s, hrun, hcacheRun, hexport,
    hsnapshot.positionExported_iff hne hposition'⟩

/-- A position report on the air is in the next export, exactly if neither coordinate is
within 0.0001 degree of zero: with any frames before it, any frames of other senders
behind it, any cut of the samples into calls, and anything in the cache before the last
export. -/
theorem air_to_export {cfg : Config} (hcache : cfg.cachePositions = true) (clock : ℕ → ℤ)
    (mem : Allocated) (serial ipc : Bool) (name : UInt8) {m : AirReport}
    (hskip : cfg.skipType m.type.toNat = false) (hmmsi : m.mmsi ≠ 0)
    (before after : List SentFrame) {f : SentFrame} (hcarries : f.Carries m.layout)
    (hlast : ∀ g ∈ after, g.mmsi ≠ m.mmsi.toNat)
    (hlead : ∀ g ∈ (before ++ f :: after).head?, 2 ≤ g.gap) {chunks : List (List Bool)}
    (hchunks : chunks.flatten = signal ((before ++ f :: after).flatMap SentFrame.bits))
    (hlen : ∀ c ∈ chunks, c.length ≤ filteredLen) (cacheMem : Memory) (past : List CacheOp) :
    ∃ rx bits calls r msgs s,
      receiverRuns cfg clock chunks (initReceiver mem serial ipc name) = some (rx, bits, calls) ∧
      cacheRun cacheMem (past ++ [.rotate] ++ (cacheCalls calls).map .update) = some r ∧
      jsonoutExport r.cache = some (msgs, s) ∧
      (PositionExported msgs (Int32.ofNat m.mmsi.toNat) m.lat m.lon ↔
        1 / 10000 < |m.lat.value| ∧ 1 / 10000 < |m.lon.value|) :=
  report_exported hcache clock mem serial ipc name hskip hmmsi before after hcarries
    (fun g hg => .inl (hlast g hg)) hlead hchunks hlen cacheMem past

/-- A report of a class B vessel at 60 degrees north, 24 degrees east. -/
def northEast : ClassBReport where
  repeatIndicator := 0
  mmsi := 230012345
  reserved := 0
  speed := 0
  accuracy := 0
  longitude := 14400000
  latitude := 36000000
  course := 900
  heading := 91

/-- It in a frame. -/
def northEastFrame : SentFrame where
  gap := 2
  phase := false
  octets := [72, 54, 214, 214, 228, 0, 0, 6, 221, 208, 2, 37, 81, 0, 56, 66, 216]
  nonempty := by decide
  fits := by decide

theorem air_to_export_north_east :
    ∃ rx bits calls r msgs s,
      receiverRuns ⟨false, true, false, fun _ => false⟩ (fun _ => 0)
        [signal ([northEastFrame].flatMap SentFrame.bits)] (initReceiver .zeroed false false 65) =
        some (rx, bits, calls) ∧
      cacheRun emptyMemory ([] ++ [.rotate] ++ (cacheCalls calls).map .update) = some r ∧
      jsonoutExport r.cache = some (msgs, s) ∧
      (PositionExported msgs 230012345 (AirReport.classB northEast).lat
          (AirReport.classB northEast).lon ↔
        1 / 10000 < |(AirReport.classB northEast).lat.value| ∧
          1 / 10000 < |(AirReport.classB northEast).lon.value|) :=
  air_to_export (m := .classB northEast) (f := northEastFrame) rfl (fun _ => 0) .zeroed false false
    65 rfl (by decide) [] [] (by unfold SentFrame.Carries; decide +kernel)
    (fun _ hg => absurd hg List.not_mem_nil)
    (fun g hg => by obtain rfl := Option.some.inj hg; decide)
    (List.flatten_singleton) (by decide +kernel) emptyMemory []

end Gnuais
