import Gnuais.Getdata

/-!
# Frames do not see each other

The decoder reuses its five buffers for every frame and clears only two of
them, and the message decoders read fixed fields whatever the length of the
frame. Nothing shows: what the closing bit of a frame causes depends on the
collected bits, the sequence number and the configuration alone.

`crcObs` and `stopsignObs` are that dependence, in the way `getdataObs` is for
an accepted frame; two decoders that agree on their arguments are then treated
alike (`no_leakage`).
-/

namespace Gnuais

open Buffer

/-- `protodec_calculate_crc` as a function of the collected bytes: the
decision, the new `rbuffer` and what is logged. -/
def crcObs (lengthBits : ℕ) (buffer : Frame) : Option (Bool × Frame × List Call) := do
  let buf ← (List.range (lengthBits / 8 + 2)).mapM (packOctet buffer)
  let (done, rbuffer) ←
    storeBits buf (bitIndices (lengthBits / 8)) (Vector.replicate demodBufferLen 0)
  if done then return (protodecSdlcCrc buf = 0x0f47#16, rbuffer, [])
  else return (false, rbuffer, [.hlog crcOverrunError])

/-- The code decides as `crcObs` does, and leaves everything else in the decoder alone. -/
theorem protodecCalculateCrc_eq (d : DemodState) {lengthBits : ℤ} (h : 0 < lengthBits) :
    protodecCalculateCrc lengthBits d =
      (crcObs lengthBits.toNat d.buffer).map fun r => (r.1, { d with rbuffer := r.2.1 }, r.2.2) := by
  rw [protodecCalculateCrc, if_neg (by omega), crcObs]
  simp only [Option.bind_eq_bind]
  cases (List.range (lengthBits.toNat / 8 + 2)).mapM (packOctet d.buffer) with
  | none => rfl
  | some buf =>
    simp only [Option.bind_some]
    cases storeBits buf (bitIndices (lengthBits.toNat / 8)) (Vector.replicate demodBufferLen 0) with
    | none => rfl
    | some r =>
      obtain ⟨done, rbuffer⟩ := r
      cases done <;> rfl

/-- The frame check reads collected bytes only. -/
theorem crcObs_congr {bufferpos : ℕ} {buffer buffer' : Frame}
    (h : ∀ i < bufferpos, buffer[i]? = buffer'[i]?) {lengthBits : ℕ}
    (hlen : lengthBits + 16 ≤ bufferpos) : crcObs lengthBits buffer = crcObs lengthBits buffer' := by
  have hpack : ∀ j < lengthBits / 8 + 2, packOctet buffer j = packOctet buffer' j := by
    intro j hj
    have hread : ∀ i < 8, buffer[i + 8 * j]? = buffer'[i + 8 * j]? :=
      fun i hi => h _ (by omega)
    have hrange : List.range 8 = [0, 1, 2, 3, 4, 5, 6, 7] := rfl
    rw [packOctet, packOctet, hrange]
    simp only [List.foldlM_cons, List.foldlM_nil, hread 0 (by omega), hread 1 (by omega),
      hread 2 (by omega), hread 3 (by omega), hread 4 (by omega), hread 5 (by omega),
      hread 6 (by omega), hread 7 (by omega)]
  have hmap : ∀ js : List ℕ, (∀ j ∈ js, j < lengthBits / 8 + 2) →
      js.mapM (packOctet buffer) = js.mapM (packOctet buffer') := by
    intro js
    induction js with
    | nil => exact fun _ => rfl
    | cons j js ih =>
      intro hjs
      rw [List.mapM_cons, List.mapM_cons, hpack j (hjs j (List.mem_cons_self ..)),
        ih fun k hk => hjs k (List.mem_cons_of_mem _ hk)]
  rw [crcObs, crcObs, hmap _ fun j hj => List.mem_range.mp hj]

/-- What the closing bit did with the frame. -/
inductive Verdict where
  /-- the check was right, and the frame was handled -/
  | received
  /-- the check was wrong -/
  | lost
  /-- the flag was broken, or there was no frame in front of it -/
  | lost2
  deriving DecidableEq, Repr

/-- The counters after a verdict. -/
def Verdict.counts (v : Verdict) (d d' : DemodState) : Prop :=
  d'.receivedframes = d.receivedframes + (if v = .received then 1 else 0) ∧
  d'.lostframes = d.lostframes + (if v = .lost then 1 else 0) ∧
  d'.lostframes2 = d.lostframes2 + (if v = .lost2 then 1 else 0)

/-- `case ST_STOPSIGN` as a function of what it depends on: the verdict, the
sequence number and the calls. -/
def stopsignObs (cfg : Config) (receivedT : ℤ) (b : Bool) (bufferpos : ℕ) (buffer : Frame)
    (chanid seqnr : UInt8) (serial ipc : Bool) : Option (Verdict × UInt8 × List Call) :=
  if b = false ∧ (bufferpos - 6 - 16 : ℤ) > 0 then do
    let bufferlen := (bufferpos - 6 - 16 : ℤ).toNat
    let (correct, rbuffer, logged) ← crcObs bufferlen buffer
    if correct then do
      let (calls, seqnr) ← getdataObs cfg receivedT bufferlen rbuffer chanid seqnr serial ipc
      return (.received, seqnr, logged ++ .getdata bufferlen rbuffer :: calls)
    else return (.lost, seqnr, logged)
  else return (.lost2, seqnr, [])

/-- It looks at the collected bytes only. -/
theorem stopsignObs_congr (cfg : Config) (receivedT : ℤ) (b : Bool) {bufferpos : ℕ}
    {buffer buffer' : Frame} (h : ∀ i < bufferpos, buffer[i]? = buffer'[i]?)
    (chanid seqnr : UInt8) (serial ipc : Bool) :
    stopsignObs cfg receivedT b bufferpos buffer chanid seqnr serial ipc =
      stopsignObs cfg receivedT b bufferpos buffer' chanid seqnr serial ipc := by
  rw [stopsignObs, stopsignObs]
  by_cases hframe : b = false ∧ (bufferpos - 6 - 16 : ℤ) > 0
  · have hcrc : crcObs (bufferpos - 6 - 16 : ℤ).toNat buffer =
        crcObs (bufferpos - 6 - 16 : ℤ).toNat buffer' := crcObs_congr h (by omega)
    rw [if_pos hframe, if_pos hframe]
    simp only [hcrc]
  · rw [if_neg hframe, if_neg hframe]

/-- The code does what `stopsignObs` says, and faults when it does. -/
theorem decodeStopsign_eq (cfg : Config) (receivedT : ℤ) (b : Bool) (d : DemodState) :
    match stopsignObs cfg receivedT b d.bufferpos d.buffer d.chanid d.seqnr d.serial d.ipc with
    | none => decodeStopsign cfg receivedT b d = none
    | some (verdict, seqnr, calls) => ∃ d',
        decodeStopsign cfg receivedT b d = some (d', calls) ∧ d'.seqnr = seqnr ∧
        verdict.counts d d' := by
  rw [stopsignObs, decodeStopsign]
  by_cases hframe : b = false ∧ (d.bufferpos - 6 - 16 : ℤ) > 0
  · rw [if_pos hframe, if_pos hframe, protodecCalculateCrc_eq d hframe.2]
    simp only [Option.bind_eq_bind, Option.pure_def]
    cases crcObs (d.bufferpos - 6 - 16 : ℤ).toNat d.buffer with
    | none => rfl
    | some r =>
      obtain ⟨correct, rbuffer, logged⟩ := r
      simp only [Option.map_some, Option.bind_some]
      cases correct with
      | false => exact ⟨_, rfl, rfl, rfl, rfl, rfl⟩
      | true =>
        have hgetdata := protodecGetdata_eq cfg receivedT (d.bufferpos - 6 - 16 : ℤ).toNat
          { d with rbuffer := rbuffer, receivedframes := d.receivedframes + 1 }
        simp only [if_true]
        cases hobs : getdataObs cfg receivedT (d.bufferpos - 6 - 16 : ℤ).toNat rbuffer d.chanid
            d.seqnr d.serial d.ipc with
        | none =>
          simp only [hobs] at hgetdata
          rw [hgetdata]
          rfl
        | some r =>
          obtain ⟨calls, seqnr⟩ := r
          simp only [hobs] at hgetdata
          obtain ⟨rbuffer', nmea, ser, ipc, hgetdata⟩ := hgetdata
          simp only [hgetdata, Option.bind_some]
          exact ⟨_, rfl, rfl, rfl, rfl, rfl⟩
  · rw [if_neg hframe, if_neg hframe]
    exact ⟨_, rfl, rfl, rfl, rfl, rfl⟩

/-- Two decoders did the same with a bit: both faulted, or both made the same
calls, came to the same verdict and have the same sequence number. -/
inductive SameOutcome (d₁ d₂ : DemodState) : Option (DemodState × List Call) →
    Option (DemodState × List Call) → Prop where
  /-- an access outside an array -/
  | faulted : SameOutcome d₁ d₂ none none
  /-- the same verdict, with the counters moved on by it in each of the two -/
  | same (v : Verdict) {d₁' d₂' : DemodState} {calls : List Call} :
    d₁'.seqnr = d₂'.seqnr → v.counts d₁ d₁' → v.counts d₂ d₂' →
      SameOutcome d₁ d₂ (some (d₁', calls)) (some (d₂', calls))

/-- What the bit after a closing flag's six ones causes depends on the collected bits, the
sequence number, the channel and the configuration, and on nothing else the buffers hold.
It compares two decoders, so it says that there is no way for earlier frames to come out
again. -/
theorem no_leakage (cfg : Config) (receivedT : ℤ) (b : Bool) {d₁ d₂ : DemodState}
    (hstate₁ : d₁.state = .stopsign) (hstate₂ : d₂.state = .stopsign)
    (hpos : d₁.bufferpos = d₂.bufferpos)
    (hbuffer : ∀ i < d₁.bufferpos, d₁.buffer[i]? = d₂.buffer[i]?)
    (hseqnr : d₁.seqnr = d₂.seqnr) (hchanid : d₁.chanid = d₂.chanid)
    (hserial : d₁.serial = d₂.serial) (hipc : d₁.ipc = d₂.ipc) :
    SameOutcome d₁ d₂ (protodecDecodeBit cfg receivedT b d₁)
      (protodecDecodeBit cfg receivedT b d₂) := by
  have hone := decodeStopsign_eq cfg receivedT b d₁
  have htwo := decodeStopsign_eq cfg receivedT b d₂
  rw [stopsignObs_congr cfg receivedT b hbuffer, hpos, hseqnr, hchanid, hserial, hipc] at hone
  rw [protodecDecodeBit, protodecDecodeBit, hstate₁, hstate₂]
  cases hobs : stopsignObs cfg receivedT b d₂.bufferpos d₂.buffer d₂.chanid d₂.seqnr d₂.serial
      d₂.ipc with
  | none =>
    simp only [hobs] at hone htwo
    simp only [hone, htwo]
    exact .faulted
  | some r =>
    obtain ⟨verdict, seqnr, calls⟩ := r
    simp only [hobs] at hone htwo
    obtain ⟨d₁', hrun₁, hseq₁, hcount₁⟩ := hone
    obtain ⟨d₂', hrun₂, hseq₂, hcount₂⟩ := htwo
    simp only [hrun₁, hrun₂]
    exact .same verdict (hseq₁.trans hseq₂.symm) hcount₁ hcount₂

/-- The bits of a frame of one octet, with its check sequence and the flag up to its fifth
one. -/
def octetBits : List UInt8 :=
  [0, 0, 1, 0, 0, 0, 0, 0] ++ [0, 0, 1, 1, 1, 0, 1, 0] ++ [0, 1, 1, 0, 1, 1, 0, 1] ++
    [0, 1, 1, 1, 1, 1]

/-- A decoder at the end of this frame, with everything else in its buffers set to `fill`. -/
def atStopsign (fill : UInt8) : DemodState :=
  { protodecInitialize
      ⟨splice (Vector.replicate _ fill) 0 octetBits, Vector.replicate _ fill,
        Vector.replicate _ fill, Vector.replicate _ fill, Vector.replicate _ fill⟩ true true 65 with
    state := .stopsign
    bufferpos := 30 }

/-- Two decoders that agree on nothing but the collected bits, which both accept. -/
theorem no_leakage_octet :
    SameOutcome (atStopsign 1) (atStopsign 255)
      (protodecDecodeBit .silent 0 false (atStopsign 1))
      (protodecDecodeBit .silent 0 false (atStopsign 255)) ∧
    (protodecDecodeBit .silent 0 false (atStopsign 1)).map (·.1.receivedframes) = some 1 := by
  have hread : ∀ (fill : UInt8) (i : ℕ), i < 30 →
      (atStopsign fill).buffer[i]? = octetBits[i - 0]? := by
    intro fill i hi
    exact (getElem?_splice _ (Vector.replicate _ fill) 0 i (by decide)).trans
      (if_pos (by rw [show octetBits.length = 30 from rfl]; omega))
  have hseqnr : ∀ fill, (atStopsign fill).seqnr = 0 := fun _ => rfl
  have hchanid : ∀ fill, (atStopsign fill).chanid = 65 := fun _ => rfl
  have hserial : ∀ fill, (atStopsign fill).serial = true := fun _ => rfl
  have hipc : ∀ fill, (atStopsign fill).ipc = true := fun _ => rfl
  refine ⟨no_leakage .silent 0 false rfl rfl rfl
    (fun i hi => (hread 1 i hi).trans (hread 255 i hi).symm)
    ((hseqnr 1).trans (hseqnr 255).symm) ((hchanid 1).trans (hchanid 255).symm)
    ((hserial 1).trans (hserial 255).symm) ((hipc 1).trans (hipc 255).symm), ?_⟩
  decide +kernel

end Gnuais
