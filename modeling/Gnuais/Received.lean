import Gnuais.Getdata
import Gnuais.Lib.Layout

/-!
# A message and what the decoder reports of it

What a round trip through the decoder is about: a frame whose bits start with a
packed message stands in `rbuffer` (`Received`), and `protodec_getdata` prints
the sender and makes the calls of the message decoder (`Reported`).

`Received.reported_iff` reduces one to the other. Which calls are reported is
settled by the message decoder on the bits of the message, and `henten_number`
gives the value it reads for a field.
-/

namespace Gnuais

open Buffer Bits Layout

/-! ## Fields of a packed message

How far a decoder that reads at `pos` is from what the sender put there depends on the
fields in front only. The lemmas are for a read of a whole field, of its front, of its
end, and across the border of two. -/

/-- A field stands at the end of those before it. -/
theorem field_number {fields : List Field} {i w : ℕ} {v : BitVec w}
    (hf : fields[i]? = some (.number v)) {pos : ℕ} (hpos : width (fields.take i) = pos) :
    field (pack fields) pos w = v.toNat := by
  have hstretch := drop_take_pack_field hf
  rw [width_number] at hstretch
  rw [field, ← hpos, hstretch, ofBits_number]

section Packed

variable {n : ℕ} {frame : Vector UInt8 n} {start : ℕ} {fields : List Field}
  (hholds : HoldsBits frame start (pack fields))

include hholds

/-- Some bits inside a field are read. -/
theorem henten_inside {i : ℕ} {f : Field} (hf : fields[i]? = some f) {j len : ℕ}
    (hlen : j + len ≤ f.width) {pos : ℕ} (hpos : start + (width (fields.take i) + j) = pos) :
    protodecHenten pos len frame = some (ofBits ((f.bits.drop j).take len)) := by
  have hend := width_take_add_le hf
  rw [← hpos, hholds.henten (by rw [length_pack]; omega), field, drop_take_pack hf hlen]

/-- A field is read at the end of those before it. -/
theorem henten_number {i w : ℕ} {v : BitVec w} (hf : fields[i]? = some (.number v)) {pos : ℕ}
    (hpos : start + width (fields.take i) = pos) : protodecHenten pos w frame = some v.toNat := by
  have hend := width_take_add_le hf
  rw [width_number] at hend
  rw [← hpos, hholds.henten (by rw [length_pack]; exact hend), field_number hf rfl]

/-- A read that stops before the end of a field gives its high bits. -/
theorem henten_high {i w : ℕ} {v : BitVec w} (hf : fields[i]? = some (.number v)) {len : ℕ}
    (hlen : len ≤ w) {pos : ℕ} (hpos : start + width (fields.take i) = pos) :
    protodecHenten pos len frame = some (v.toNat / 2 ^ (w - len)) := by
  have hread := henten_inside hholds hf ((Nat.zero_add len).le.trans hlen) hpos
  have hlt : v.toNat / 2 ^ (w - len) < 2 ^ len := by
    rw [Nat.div_lt_iff_lt_mul (Nat.two_pow_pos _), ← Nat.pow_add, Nat.add_sub_cancel' hlen]
    exact v.isLt
  rw [hread, List.drop_zero, Field.number, take_toBits _ hlen, ofBits_toBits hlt]

/-- A read that starts inside a field and ends with it gives its low bits. -/
theorem henten_low {i w : ℕ} {v : BitVec w} (hf : fields[i]? = some (.number v)) {j : ℕ}
    (hj : j ≤ w) {pos : ℕ} (hpos : start + (width (fields.take i) + j) = pos) {len : ℕ}
    (hlen : w - j = len) : protodecHenten pos len frame = some (v.toNat % 2 ^ len) := by
  have hend : j + len ≤ (Field.number v).width := by
    rw [width_number]
    omega
  have hall : (toBits len v.toNat).take len = toBits len v.toNat :=
    List.take_of_length_le (length_toBits _ _).le
  rw [henten_inside hholds hf hend hpos, Field.number, drop_toBits, hlen, hall, ofBits_toBits_mod]

/-- A read across the border of two fields gives the low bits of the one above
the high bits of the other. -/
theorem henten_two {i w w' : ℕ} {v : BitVec w} {v' : BitVec w'}
    (hf : fields[i]? = some (.number v)) (hg : fields[i + 1]? = some (.number v')) {j k : ℕ}
    (hj : j ≤ w) (hk : k ≤ w') {pos : ℕ} (hpos : start + (width (fields.take i) + j) = pos)
    {len : ℕ} (hlen : w - j + k = len) :
    protodecHenten pos len frame =
      some (v.toNat % 2 ^ (w - j) * 2 ^ k + v'.toNat / 2 ^ (w' - k)) := by
  have hstretch := drop_take_pack_two hf hg hj hk
  have hlt : v'.toNat / 2 ^ (w' - k) < 2 ^ k := by
    rw [Nat.div_lt_iff_lt_mul (Nat.two_pow_pos _), ← Nat.pow_add, Nat.add_sub_cancel' hk]
    exact v'.isLt
  have hend := width_take_add_le hg
  have hnext := width_take_succ hf
  rw [width_number] at hstretch hend hnext
  rw [← hpos, ← hlen, hholds.henten (by rw [length_pack]; omega), field, hstretch, ofBits_append,
    Field.number, Field.number, drop_toBits, take_toBits _ hk, ofBits_toBits_mod,
    ofBits_toBits hlt, length_toBits]

end Packed

/-! ## The frame and the report

What a decoder prints and calls for a frame is the statement of a round trip: the message
comes back if and only if these are the calls its fields ask for. -/

/-- A frame in `rbuffer`: its bits start with `p`, and it fits with its fill
bits. -/
structure Received (d : DemodState) (bufferlen : ℕ) (p : List Bool) : Prop where
  /-- the message is at the front -/
  holds : HoldsBits d.rbuffer 0 p
  /-- no part of it is missing -/
  whole : p.length ≤ bufferlen
  /-- the array has room for the fill bits -/
  fits : bufferlen + fillbitsOf bufferlen ≤ demodBufferLen

/-- `protodec_getdata` prints the type and the sender of the frame, makes the
calls `messages` and prints the last sentence. -/
def Reported (cfg : Config) (receivedT : ℤ) (bufferlen : ℕ) (d : DemodState) (type mmsi : ℕ)
    (messages : List Call) : Prop :=
  ∃ d' calls nmea, protodecGetdata cfg receivedT bufferlen d = some (d', calls) ∧
    calls.filter Call.isReport =
      .printf (.frame d.chanid type mmsi) :: messages ++ [.printf (.sentence nmea)]

/-- The sentences of a frame are no reports. -/
theorem filter_isReport_sinks (cfg : Config) (serial ipc : Bool) (receivedT : ℤ)
    (bodies : List (List UInt8)) :
    (bodies.flatMap (sinkCalls cfg serial ipc receivedT)).filter Call.isReport = [] := by
  induction bodies with
  | nil => rfl
  | cons body bodies ih =>
    rw [List.flatMap_cons, List.filter_append, ih, List.append_nil, sinkCalls]
    cases serial <;> cases ipc <;> cases cfg.my <;> rfl

section Report

variable {cfg : Config} {receivedT : ℤ} {bufferlen : ℕ} {d : DemodState} {p : List Bool}

/-- The fill bits stand behind the message. -/
theorem Received.filled (hrec : Received d bufferlen p) :
    HoldsBits (splice d.rbuffer bufferlen (List.replicate (fillbitsOf bufferlen) 0)) 0 p := by
  intro i hi
  have hwhole := hrec.whole
  rw [getElem?_splice _ _ _ _ (by rw [List.length_replicate]; exact hrec.fits),
    if_neg (by omega)]
  exact hrec.holds i hi

/-- The calls for a frame of a type that is decoded. -/
theorem getdataObs_messages (rbuffer : Frame) (chanid seqnr : UInt8) (serial ipc : Bool)
    (hfits : bufferlen + fillbitsOf bufferlen ≤ demodBufferLen) {type : ℕ}
    (htype : cUChar (hentenVal 0 6 rbuffer) = type) (hknown : 1 ≤ type ∧ type ≤ maxAisPacketType)
    (hskip : cfg.skipType type = false) {messages : List Call}
    (hmessages : messageCalls cfg type (bufferlen + fillbitsOf bufferlen)
      (splice rbuffer bufferlen (List.replicate (fillbitsOf bufferlen) 0)) receivedT
      (hentenVal 8 30 rbuffer) = some messages) :
    ∃ bodies : List (List UInt8),
      getdataObs cfg receivedT bufferlen rbuffer chanid seqnr serial ipc =
        some (bodies.flatMap (sinkCalls cfg serial ipc receivedT)
        ++ .printf (.frame chanid type (hentenVal 8 30 rbuffer)) :: messages
        ++ [.printf (.sentence (bodies.getLastD []))], nextSeqnr seqnr) := by
  obtain ⟨bodies, hbodies⟩ : ∃ bodies, nmeaBodies
      (splice rbuffer bufferlen (List.replicate (fillbitsOf bufferlen) 0)) seqnr
      (bufferlen + fillbitsOf bufferlen) (fillbitsOf bufferlen) = some bodies :=
    bodiesFrom_isSome _ _ _ _ _ (padded_mod bufferlen) hfits _ 0 (by rfl)
  refine ⟨bodies, ?_⟩
  rw [getdataObs, htype]
  simp only [Option.bind_eq_bind, Option.pure_def]
  rw [if_neg (by omega), storeAt_eq _ _ _ (by rw [List.length_replicate]; exact hfits),
    Option.bind_some, hbodies, Option.bind_some, if_neg (by rw [hskip]; exact Bool.false_ne_true),
    hmessages]
  rfl

/-- What is reported of a frame are the calls of the message decoder. -/
theorem reported_iff_messages (hfits : bufferlen + fillbitsOf bufferlen ≤ demodBufferLen)
    {type : ℕ} (htype : cUChar (hentenVal 0 6 d.rbuffer) = type)
    (hknown : 1 ≤ type ∧ type ≤ maxAisPacketType) (hskip : cfg.skipType type = false)
    {messages : List Call}
    (hmessages : messageCalls cfg type (bufferlen + fillbitsOf bufferlen)
      (splice d.rbuffer bufferlen (List.replicate (fillbitsOf bufferlen) 0)) receivedT
      (hentenVal 8 30 d.rbuffer) = some messages) {expected : List Call} :
    Reported cfg receivedT bufferlen d type (hentenVal 8 30 d.rbuffer) expected ↔
      messages = expected := by
  obtain ⟨bodies, hobs⟩ := getdataObs_messages d.rbuffer d.chanid d.seqnr d.serial d.ipc hfits
    htype hknown hskip hmessages
  have heq := protodecGetdata_eq cfg receivedT bufferlen d
  rw [hobs] at heq
  obtain ⟨rbuffer', nmea, ser, ipc, hgetdata⟩ := heq
  have hreports : messages.filter Call.isReport = messages :=
    List.filter_eq_self.mpr fun c hc => List.all_eq_true.mp (messageCalls_reports hmessages) c hc
  -- what goes to the sinks is not a report; the frame's line, the messages and the
  -- sentence are
  have hfilter : ∀ s, (bodies.flatMap (sinkCalls cfg d.serial d.ipc receivedT)
      ++ Call.printf (.frame d.chanid type (hentenVal 8 30 d.rbuffer)) :: messages
      ++ [Call.printf (.sentence s)]).filter Call.isReport =
      Call.printf (.frame d.chanid type (hentenVal 8 30 d.rbuffer)) :: messages
        ++ [.printf (.sentence s)] := by
    intro s
    rw [List.filter_append, List.filter_append, filter_isReport_sinks, List.nil_append,
      List.filter_cons_of_pos rfl, hreports]
    rfl
  constructor
  · rintro ⟨d', calls, s, hrun, hcalls⟩
    obtain ⟨-, rfl⟩ := Prod.mk.inj (Option.some.inj (hgetdata.symm.trans hrun))
    rw [hfilter] at hcalls
    exact (List.cons.inj (List.append_inj' hcalls rfl).1).2
  · rintro rfl
    exact ⟨_, _, _, hgetdata, hfilter _⟩

/-- The type and the sender are read from the message. -/
theorem Received.hentenVal_head (hrec : Received d bufferlen p) (hlen : 38 ≤ p.length) :
    cUChar (hentenVal 0 6 d.rbuffer) = field p 0 6 ∧ hentenVal 8 30 d.rbuffer = field p 8 30 := by
  rw [hentenVal_field hrec.holds (by omega), hentenVal_field hrec.holds hlen]
  exact ⟨Nat.mod_eq_of_lt (lt_of_lt_of_le (field_lt (by omega)) (by decide)), rfl⟩

/-- What is reported of a frame are the calls the message decoder makes on its
bits. -/
theorem Received.reported_iff (hrec : Received d bufferlen p) (hlen : 38 ≤ p.length)
    (hknown : 1 ≤ field p 0 6 ∧ field p 0 6 ≤ maxAisPacketType)
    (hskip : cfg.skipType (field p 0 6) = false) {messages : List Call}
    (hmessages : ∀ rbuffer : Frame, HoldsBits rbuffer 0 p →
      messageCalls cfg (field p 0 6) (bufferlen + fillbitsOf bufferlen) rbuffer receivedT
        (field p 8 30) = some messages) {expected : List Call} :
    Reported cfg receivedT bufferlen d (field p 0 6) (field p 8 30) expected ↔
      messages = expected := by
  obtain ⟨htype, hmmsi⟩ := hrec.hentenVal_head hlen
  rw [← hmmsi] at hmessages ⊢
  exact reported_iff_messages hrec.fits htype hknown hskip (hmessages _ hrec.filled)

/-- The head of a packed message gives the type and the sender. -/
theorem Received.reported_layout_iff {type : BitVec 6} {repeatIndicator : BitVec 2}
    {mmsi : BitVec 30} {rest : List Field}
    (hrec : Received d bufferlen
      (pack (.number type :: .number repeatIndicator :: .number mmsi :: rest)))
    (hknown : 1 ≤ type.toNat ∧ type.toNat ≤ maxAisPacketType)
    (hskip : cfg.skipType type.toNat = false) {messages : List Call}
    (hmessages : ∀ rbuffer : Frame,
      HoldsBits rbuffer 0 (pack (.number type :: .number repeatIndicator :: .number mmsi :: rest)) →
      messageCalls cfg type.toNat (bufferlen + fillbitsOf bufferlen) rbuffer receivedT mmsi.toNat =
        some messages) {expected : List Call} :
    Reported cfg receivedT bufferlen d type.toNat mmsi.toNat expected ↔ messages = expected := by
  have hlen : 38 ≤ (pack
      (.number type :: .number repeatIndicator :: .number mmsi :: rest)).length := by
    rw [length_pack, width_cons, width_cons, width_cons, width_number, width_number, width_number]
    omega
  have htype : field (pack (.number type :: .number repeatIndicator :: .number mmsi :: rest)) 0 6 =
      type.toNat :=
    field_number (i := 0) rfl rfl
  have hmmsi : field (pack (.number type :: .number repeatIndicator :: .number mmsi :: rest)) 8 30 =
      mmsi.toNat :=
    field_number (i := 2) rfl rfl
  rw [← htype] at hknown hskip hmessages ⊢
  rw [← hmmsi] at hmessages ⊢
  exact hrec.reported_iff hlen hknown hskip hmessages

end Report

/-- A decoder whose `rbuffer` starts with some bits. -/
def decoding (p : List Bool) : DemodState :=
  { protodecInitialize .zeroed false false 65 with
    rbuffer := splice (Vector.replicate _ 0) 0 (p.map byte) }

/-- It has received them. -/
theorem decoding_received {p : List Bool} {bufferlen : ℕ} (hwhole : p.length ≤ bufferlen)
    (hfits : bufferlen + fillbitsOf bufferlen ≤ demodBufferLen) :
    Received (decoding p) bufferlen p where
  holds := holdsBits_splice _ (by omega)
  whole := hwhole
  fits := hfits

end Gnuais
