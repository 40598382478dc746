import Gnuais.FrameCheck

/-!
# What an accepted frame causes

`protodec_getdata` works on the decoder's shared buffers, but what leaves the
decoder is a function of the frame, the sequence number and the configuration.
`getdataObs` is that function, and `protodecGetdata_some` /
`protodecGetdata_none` tie the code to it for every content of the buffers.

`getdataObs_isSome` bounds it: a frame of at most 444 bits causes no fault.
-/

namespace Gnuais

open Buffer Bits

/-- The sequence number after a frame: `d->seqnr++; if (d->seqnr > 9) ...`. It counts up
for each frame of a known type, also when one sentence carries it. -/
def nextSeqnr (seqnr : UInt8) : UInt8 := if seqnr + 1 > 9 then 0 else seqnr + 1

/-- The calls `protodec_getdata` makes and the sequence number it leaves, as a function of
what it reads. No buffer is among the arguments but the frame itself: what a buffer held
before is written over before it is read. -/
def getdataObs (cfg : Config) (receivedT : ℤ) (bufferlen : ℕ) (rbuffer : Frame)
    (chanid seqnr : UInt8) (serial ipc : Bool) : Option (List Call × UInt8) := do
  let type := cUChar (hentenVal 0 6 rbuffer)
  if type < 1 ∨ type > maxAisPacketType then return ([], seqnr)
  else do
    let mmsi := hentenVal 8 30 rbuffer
    let fillbits := fillbitsOf bufferlen
    let rbuffer ← storeAt rbuffer bufferlen (List.replicate fillbits 0)
    let bodies ← nmeaBodies rbuffer seqnr (bufferlen + fillbits) fillbits
    let calls := bodies.flatMap (sinkCalls cfg serial ipc receivedT)
    if cfg.skipType type then return (calls, nextSeqnr seqnr)
    else do
      let messages ← messageCalls cfg type (bufferlen + fillbits) rbuffer receivedT mmsi
      return (calls ++ .printf (.frame chanid type mmsi) :: messages
        ++ [.printf (.sentence (bodies.getLastD []))], nextSeqnr seqnr)

theorem length_bodiesFrom {rbuffer : Frame} {seqnr : UInt8} {bufferlen fillbits sentences : ℕ} :
    ∀ {nums : List ℕ} {pos : ℕ} {bodies : List (List UInt8)},
      bodiesFrom rbuffer seqnr bufferlen fillbits sentences nums pos = some bodies →
      bodies.length = nums.length := by
  intro nums
  induction nums with
  | nil =>
    intro pos bodies h
    obtain rfl := Option.some.inj h
    rfl
  | cons num nums ih =>
    intro pos bodies h
    rw [bodiesFrom] at h
    simp only [Option.bind_eq_bind, Option.bind_eq_some_iff] at h
    obtain ⟨letters, -, rest, hrest, heq⟩ := h
    obtain rfl := Option.some.inj heq
    rw [List.length_cons, List.length_cons, ih hrest]

/-- A message has at least one sentence. -/
theorem nmeaBodies_ne_nil {rbuffer : Frame} {seqnr : UInt8} {bufferlen fillbits : ℕ}
    {bodies : List (List UInt8)} (h : nmeaBodies rbuffer seqnr bufferlen fillbits = some bodies) :
    bodies ≠ [] := by
  have hlen := length_bodiesFrom h
  rw [List.length_range'] at hlen
  intro hnil
  rw [hnil, List.length_nil] at hlen
  omega

theorem protodecGenerateNmea_none (cfg : Config) (receivedT : ℤ) (bufferlen fillbits : ℕ)
    (d : DemodState) (h : nmeaBodies d.rbuffer d.seqnr bufferlen fillbits = none) :
    protodecGenerateNmea cfg receivedT bufferlen fillbits d = none :=
  generateLoop_none cfg receivedT bufferlen fillbits _ _ 0 d h

/-- `protodec_generate_nmea` emits the sentences of the message and leaves the
last one in `d->nmea`. -/
theorem protodecGenerateNmea_some (cfg : Config) (receivedT : ℤ) (bufferlen fillbits : ℕ)
    (d : DemodState) {bodies : List (List UInt8)}
    (h : nmeaBodies d.rbuffer d.seqnr bufferlen fillbits = some bodies) :
    ∃ nmea ser ipc,
      protodecGenerateNmea cfg receivedT bufferlen fillbits d =
        some ({ d with nmea := nmea, serbuffer := ser, ipcbuffer := ipc },
          bodies.flatMap (sinkCalls cfg d.serial d.ipc receivedT)) ∧
      cString nmea = some (bodies.getLastD []) := by
  obtain ⟨nmea, ser, ipc, hloop, hlast⟩ :=
    generateLoop_some cfg receivedT bufferlen fillbits _ _ 0 d bodies h
  refine ⟨nmea, ser, ipc, hloop, hlast _ ?_⟩
  rw [List.getLastD_eq_getLast?, List.getLast?_eq_some_getLast (nmeaBodies_ne_nil h)]
  rfl

/-- The code makes the calls of `getdataObs`, and nothing but the buffers and
the sequence number changes; it faults exactly when `getdataObs` does. -/
theorem protodecGetdata_eq (cfg : Config) (receivedT : ℤ) (bufferlen : ℕ) (d : DemodState) :
    match getdataObs cfg receivedT bufferlen d.rbuffer d.chanid d.seqnr d.serial d.ipc with
    | none => protodecGetdata cfg receivedT bufferlen d = none
    | some (calls, seqnr) => ∃ rbuffer nmea ser ipc,
        protodecGetdata cfg receivedT bufferlen d =
          some ({ d with
            rbuffer := rbuffer
            nmea := nmea
            serbuffer := ser
            ipcbuffer := ipc
            seqnr := seqnr }, calls) := by
  rw [getdataObs, protodecGetdata, henten_frame d.rbuffer (by omega)]
  simp only [Option.bind_eq_bind, Option.bind_some, Option.pure_def]
  generalize cUChar (hentenVal 0 6 d.rbuffer) = type
  by_cases htype : type < 1 ∨ type > maxAisPacketType
  · rw [if_pos htype, if_pos htype]
    exact ⟨d.rbuffer, d.nmea, d.serbuffer, d.ipcbuffer, rfl⟩
  rw [if_neg htype, if_neg htype, henten_frame d.rbuffer (by omega)]
  simp only [Option.bind_some]
  cases storeAt d.rbuffer bufferlen (List.replicate (fillbitsOf bufferlen) 0) with
  | none => rfl
  | some rbuffer =>
    simp only [Option.bind_some]
    cases hbodies : nmeaBodies rbuffer d.seqnr (bufferlen + fillbitsOf bufferlen)
        (fillbitsOf bufferlen) with
    | none =>
      rw [protodecGenerateNmea_none cfg receivedT _ _ { d with rbuffer := rbuffer } hbodies]
      rfl
    | some bodies =>
      obtain ⟨nmea, ser, ipc, hgen, hstr⟩ := protodecGenerateNmea_some cfg receivedT _ _
        { d with rbuffer := rbuffer } hbodies
      simp only [hgen, Option.bind_some]
      cases hskip : cfg.skipType type with
      | true => exact ⟨rbuffer, nmea, ser, ipc, rfl⟩
      | false =>
        simp only [Bool.false_eq_true, if_false]
        cases messageCalls cfg type (bufferlen + fillbitsOf bufferlen) rbuffer receivedT
            (hentenVal 8 30 d.rbuffer) with
        | none => rfl
        | some messages =>
          simp only [Option.bind_some, hstr]
          exact ⟨rbuffer, nmea, ser, ipc, rfl⟩

/-! ## A frame that fits causes no fault

The frame and its fill bits must fit into `rbuffer`, 450 bits. A frame of at most 444 bits
does, whatever its length is modulo six. -/

theorem payloadLetters_isSome (bufferlen : ℕ) (rbuffer : Frame) (h6 : bufferlen % 6 = 0)
    (h : bufferlen ≤ demodBufferLen) (left : ℕ) : ∀ pos, pos % 6 = 0 →
      ∃ letters, payloadLetters bufferlen rbuffer left pos = some letters := by
  have hsize : demodBufferLen = 450 := rfl
  induction left with
  | zero => exact fun _ _ => ⟨[], rfl⟩
  | succ left ih =>
    intro pos hpos
    rw [payloadLetters]
    split
    · -- `pos` and `bufferlen` are multiples of six, so a whole letter is left
      obtain ⟨rest, hrest⟩ := ih (pos + 6) (by omega)
      rw [henten_frame rbuffer (by omega), hrest]
      exact ⟨_, rfl⟩
    · exact ⟨[], rfl⟩

theorem bodiesFrom_isSome (bufferlen fillbits sentences : ℕ) (rbuffer : Frame) (seqnr : UInt8)
    (h6 : bufferlen % 6 = 0) (h : bufferlen ≤ demodBufferLen) (nums : List ℕ) :
    ∀ pos, pos % 6 = 0 →
      ∃ bodies, bodiesFrom rbuffer seqnr bufferlen fillbits sentences nums pos = some bodies := by
  induction nums with
  | nil => exact fun _ _ => ⟨[], rfl⟩
  | cons num nums ih =>
    intro pos hpos
    obtain ⟨letters, hletters⟩ := payloadLetters_isSome bufferlen rbuffer h6 h senlen pos hpos
    obtain ⟨rest, hrest⟩ := ih (pos + 6 * letters.length) (by omega)
    rw [bodiesFrom, hletters]
    simp only [Option.bind_eq_bind, Option.bind_some, hrest]
    exact ⟨_, rfl⟩

theorem fillbitsOf_le (bufferlen : ℕ) : fillbitsOf bufferlen ≤ 5 := by
  rw [fillbitsOf]
  split <;> omega

theorem padded_mod (bufferlen : ℕ) : (bufferlen + fillbitsOf bufferlen) % 6 = 0 := by
  rw [fillbitsOf]
  split <;> omega

/-- A frame whose padded length fits the array causes no fault. -/
theorem getdataObs_isSome (cfg : Config) (receivedT : ℤ) {bufferlen : ℕ} (rbuffer : Frame)
    (chanid seqnr : UInt8) (serial ipc : Bool)
    (h : bufferlen + fillbitsOf bufferlen ≤ demodBufferLen) :
    ∃ calls seqnr', getdataObs cfg receivedT bufferlen rbuffer chanid seqnr serial ipc =
      some (calls, seqnr') := by
  rw [getdataObs]
  simp only [Option.bind_eq_bind, Option.pure_def]
  generalize cUChar (hentenVal 0 6 rbuffer) = type
  by_cases htype : type < 1 ∨ type > maxAisPacketType
  · rw [if_pos htype]
    exact ⟨[], seqnr, rfl⟩
  rw [if_neg htype, storeAt_eq _ _ _ (by rw [List.length_replicate]; exact h)]
  obtain ⟨bodies, hbodies⟩ := bodiesFrom_isSome (bufferlen + fillbitsOf bufferlen)
    (fillbitsOf bufferlen) (sentencesOf (bufferlen + fillbitsOf bufferlen))
    (splice rbuffer bufferlen (List.replicate (fillbitsOf bufferlen) 0)) seqnr
    (padded_mod bufferlen) h (List.range' 1 (max 1 (sentencesOf (bufferlen + fillbitsOf bufferlen))))
    0 (by rfl)
  obtain ⟨messages, hmessages⟩ := Option.isSome_iff_exists.mp
    (messageCalls_isSome cfg (splice rbuffer bufferlen (List.replicate (fillbitsOf bufferlen) 0))
      receivedT (hentenVal 8 30 rbuffer) h type)
  simp only [Option.bind_some, nmeaBodies, hbodies, hmessages]
  split
  · exact ⟨_, _, rfl⟩
  · exact ⟨_, _, rfl⟩

/-! ## What the calls of a frame are

The sentences come first, each to all sinks before the next, and the reports of the
message decoder behind them. Nothing but the sentences goes to the socket. -/

/-- The message types the decoder handles. -/
def KnownType (rbuffer : Frame) : Prop :=
  1 ≤ cUChar (hentenVal 0 6 rbuffer) ∧ cUChar (hentenVal 0 6 rbuffer) ≤ maxAisPacketType

/-- A frame of a known type gives its sentences to the sinks and then reports;
a frame of another type gives nothing. -/
theorem getdataObs_some {cfg : Config} {receivedT : ℤ} {bufferlen : ℕ} {rbuffer : Frame}
    {chanid seqnr seqnr' : UInt8} {serial ipc : Bool} {calls : List Call}
    (h : getdataObs cfg receivedT bufferlen rbuffer chanid seqnr serial ipc =
      some (calls, seqnr')) :
    (¬ KnownType rbuffer ∧ calls = [] ∧ seqnr' = seqnr) ∨
    (KnownType rbuffer ∧ seqnr' = nextSeqnr seqnr ∧ ∃ padded bodies reports,
      storeAt rbuffer bufferlen (List.replicate (fillbitsOf bufferlen) 0) = some padded ∧
      nmeaBodies padded seqnr (bufferlen + fillbitsOf bufferlen) (fillbitsOf bufferlen) =
        some bodies ∧
      calls = bodies.flatMap (sinkCalls cfg serial ipc receivedT) ++ reports ∧
      reports.all Call.isReport) := by
  rw [getdataObs] at h
  simp only [Option.bind_eq_bind, Option.pure_def] at h
  rw [KnownType]
  generalize cUChar (hentenVal 0 6 rbuffer) = type at h
  by_cases htype : type < 1 ∨ type > maxAisPacketType
  · rw [if_pos htype] at h
    obtain ⟨rfl, rfl⟩ := Prod.mk.inj (Option.some.inj h)
    exact .inl ⟨by omega, rfl, rfl⟩
  rw [if_neg htype] at h
  obtain ⟨padded, hpadded, h⟩ := Option.bind_eq_some_iff.mp h
  obtain ⟨bodies, hbodies, h⟩ := Option.bind_eq_some_iff.mp h
  right
  cases hskip : cfg.skipType type with
  | true =>
    rw [hskip, if_pos rfl] at h
    obtain ⟨rfl, rfl⟩ := Prod.mk.inj (Option.some.inj h)
    exact ⟨by omega, rfl, padded, bodies, [], hpadded, hbodies, (List.append_nil _).symm, rfl⟩
  | false =>
    rw [hskip, if_neg Bool.false_ne_true] at h
    obtain ⟨messages, hmessages, h⟩ := Option.bind_eq_some_iff.mp h
    obtain ⟨rfl, rfl⟩ := Prod.mk.inj (Option.some.inj h)
    refine ⟨by omega, rfl, padded, bodies, _, hpadded, hbodies, List.append_assoc _ _ _, ?_⟩
    simpa [Call.isReport] using messageCalls_reports hmessages

theorem getdataCalls_reports {reports : List Call} (h : reports.all Call.isReport) :
    getdataCalls reports = [] := by
  rw [getdataCalls, List.filterMap_eq_nil_iff]
  intro c hc
  have := List.all_eq_true.mp h c hc
  cases c <;> first | rfl | cases this

theorem ipcWrites_reports {reports : List Call} (h : reports.all Call.isReport) :
    ipcWrites reports = [] := by
  rw [ipcWrites, List.filterMap_eq_nil_iff]
  intro c hc
  have := List.all_eq_true.mp h c hc
  cases c <;> first | rfl | cases this

theorem getdataCalls_sinks (cfg : Config) (serial ipc : Bool) (receivedT : ℤ)
    (bodies : List (List UInt8)) :
    getdataCalls (bodies.flatMap (sinkCalls cfg serial ipc receivedT)) = [] := by
  induction bodies with
  | nil => rfl
  | cons body bodies ih =>
    rw [List.flatMap_cons, getdataCalls_append, ih, List.append_nil, sinkCalls]
    cases serial <;> cases ipc <;> cases cfg.my <;> rfl

/-- The socket gets each sentence behind its `!`. -/
theorem ipcWrites_sinks (cfg : Config) (serial ipc : Bool) (receivedT : ℤ)
    (bodies : List (List UInt8)) :
    ipcWrites (bodies.flatMap (sinkCalls cfg serial ipc receivedT)) =
      if ipc then bodies.map (33 :: ·) else [] := by
  induction bodies with
  | nil => cases ipc <;> rfl
  | cons body bodies ih =>
    rw [List.flatMap_cons, ipcWrites_append, ih, sinkCalls]
    cases serial <;> cases ipc <;> cases cfg.my <;> rfl

/-- Handling a frame opens no other frame. -/
theorem getdataObs_getdataCalls {cfg : Config} {receivedT : ℤ} {bufferlen : ℕ} {rbuffer : Frame}
    {chanid seqnr seqnr' : UInt8} {serial ipc : Bool} {calls : List Call}
    (h : getdataObs cfg receivedT bufferlen rbuffer chanid seqnr serial ipc =
      some (calls, seqnr')) : getdataCalls calls = [] := by
  rcases getdataObs_some h with ⟨-, rfl, -⟩ | ⟨-, -, _, bodies, reports, -, -, rfl, hreports⟩
  · rfl
  · rw [getdataCalls_append, getdataCalls_sinks, getdataCalls_reports hreports]
    rfl

end Gnuais
