import Gnuais.Getdata
import Gnuais.Lib.Hdlc

/-!
# The deframer

What the state machine of `protodec_decode` is for, without its buffers: a
`Deframer` hunts for a training sequence and a start flag, collects the
unstuffed bits behind it, and at the closing flag hands them over as a
`Closing`. Which closings are accepted, and what they cause, is `close`.

`decodeBit_simulates` is one step of the decoder against one step of the
deframer, `decode_simulates` a whole run. From then on a statement about the
accepted frames of a run is a statement about the closings of the deframer.
-/

namespace Gnuais

open Buffer Bits Hdlc

/-! ## The abstract machine

The deframer has no buffer, no counters of its own for stuffing and no channel. What is
collected is a list of bits that are already unstuffed, and the frame is checked only when
it is closed. -/

/-- The state of the deframer. `nstartsign` is the code's counter of partial
start flags, kept under its own name because its value survives in more states
than it is meant for. -/
inductive Deframer where
  /-- no training sequence yet: the alternations seen in a row and the last bit -/
  | skurr (alternations nstartsign : ℕ) (last : Bool)
  /-- a training sequence was seen, and perhaps some bits of the start flag -/
  | preamble (nstartsign : ℕ) (last : Bool)
  /-- six bits of the start flag were seen -/
  | startsign (nstartsign : ℕ)
  /-- the bits collected so far, and the ones since the last zero or removed bit -/
  | data (payload : List Bool) (ones : ℕ)
  /-- six ones in a row were seen; the next bit decides -/
  | stop (payload : List Bool)
  deriving DecidableEq, Repr

/-- What the last bit of a closing flag leads to. -/
inductive Closing where
  /-- a frame to be checked, with the flag's own bits still at the end -/
  | frame (payload : List Bool)
  /-- six ones that do not end in a zero -/
  | error
  deriving DecidableEq, Repr

namespace Deframer

/-- The deframer before the first bit. -/
def start : Deframer := .skurr 0 0 false

/-- One bit while no training sequence has been seen. -/
def stepSkurr (alternations nstartsign : ℕ) (last b : Bool) : Deframer :=
  let alternations := if b ≠ last then alternations + 1 else 0
  if alternations > 14 ∧ b = false then .preamble nstartsign b
  else .skurr alternations nstartsign b

/-- One bit between the training sequence and the start flag. -/
def stepPreamble (nstartsign : ℕ) (last b : Bool) : Deframer :=
  if b ≠ last ∧ nstartsign = 0 then .preamble nstartsign b
  else if b then
    if nstartsign = 0 then .preamble 3 b
    else if nstartsign = 5 then .startsign 6
    else .preamble (nstartsign + 1) b
  else if nstartsign = 0 then .preamble 1 b
  else .skurr 0 0 b

/-- One of the last two bits of the start flag. An abort leaves the counter at
one. -/
def stepStartsign (nstartsign : ℕ) (b : Bool) : Deframer :=
  if nstartsign ≥ 7 then if b = false then .data [] 0 else .skurr 0 1 b
  else if b = false then .skurr 0 1 b
  else .startsign (nstartsign + 1)

/-- One bit of the frame. -/
def stepData (payload : List Bool) (ones : ℕ) (b : Bool) : Deframer :=
  if ones = 5 then if b then .stop payload else .data payload 0
  else if payload.length + 1 ≥ 449 then .skurr 0 0 b
  else .data (payload ++ [b]) (nextOnes ones b)

/-- One bit. -/
def step (a : Deframer) (b : Bool) : Deframer :=
  match a with
  | .skurr alternations nstartsign last => stepSkurr alternations nstartsign last b
  | .preamble nstartsign last => stepPreamble nstartsign last b
  | .startsign nstartsign => stepStartsign nstartsign b
  | .data payload ones => stepData payload ones b
  | .stop _ => .skurr 0 0 b

/-- The closing one bit leads to. -/
def closing (a : Deframer) (b : Bool) : List Closing :=
  match a with
  | .stop payload =>
    [if b = false ∧ payload.length > 22 then .frame payload else .error]
  | _ => []

/-- The deframer after a stream. -/
def run (a : Deframer) (bits : List Bool) : Deframer := bits.foldl step a

/-- The closings of a stream, in order. -/
def closings (a : Deframer) : List Bool → List Closing
  | [] => []
  | b :: bits => closing a b ++ closings (step a b) bits

@[simp] theorem run_nil (a : Deframer) : a.run [] = a := rfl

@[simp] theorem run_cons (a : Deframer) (b : Bool) (bits : List Bool) :
    a.run (b :: bits) = (a.step b).run bits := rfl

/-- A stream in two parts. -/
theorem run_append (a : Deframer) (s t : List Bool) : a.run (s ++ t) = (a.run s).run t :=
  List.foldl_append

theorem run_concat (a : Deframer) (s : List Bool) (b : Bool) :
    a.run (s ++ [b]) = (a.run s).step b := run_append a s [b]

/-- The closings of a stream in two parts. -/
theorem closings_append (s t : List Bool) :
    ∀ a : Deframer, a.closings (s ++ t) = a.closings s ++ (a.run s).closings t := by
  induction s with
  | nil => intro a; rfl
  | cons b s ih =>
    intro a
    rw [List.cons_append, closings, ih, closings, run_cons, List.append_assoc]

end Deframer

/-! ## What closings cause

All that a closing does is decided by its bits and by a few fields of the decoder. The
buffers do not matter, as they are written before they are read. -/

/-- The part of the decoder a closing reads and changes. -/
structure Tally where
  /-- the channel, which goes into the sentences -/
  chanid : UInt8
  /-- the frames that passed the check -/
  receivedframes : ℕ
  /-- those that did not -/
  lostframes : ℕ
  /-- the closings that were no frames -/
  lostframes2 : ℕ
  /-- the sequence number for the next message of several sentences -/
  seqnr : UInt8
  /-- whether sentences go to the serial port -/
  serial : Bool
  /-- and to the map socket -/
  ipc : Bool

/-- The tally of a decoder. -/
def DemodState.tally (d : DemodState) : Tally where
  chanid := d.chanid
  receivedframes := d.receivedframes
  lostframes := d.lostframes
  lostframes2 := d.lostframes2
  seqnr := d.seqnr
  serial := d.serial
  ipc := d.ipc

/-- The `rbuffer` the bits of a frame leave, for a message of `lengthBits` bits. The check
packs the bits to octets and turns each around, so this is not the list of bits as it
came. -/
def frameOf (payload : List Bool) : Frame :=
  rbufferOf (octetsOf payload ((payload.length - 22) / 8))

/-- A closing: the frame is checked, counted and handled. It is a partial function only
because `getdataObs` is one; on the closings of a run it is total. -/
def close (cfg : Config) (clock : ℕ → ℤ) (c : Closing) (y : Tally) : Option (Tally × List Call) :=
  match c with
  | .error => some ({ y with lostframes2 := y.lostframes2 + 1 }, [])
  | .frame payload =>
    if checkPasses payload (payload.length - 22) then do
      let (calls, seqnr) ← getdataObs cfg (clock y.receivedframes) (payload.length - 22)
        (frameOf payload) y.chanid y.seqnr y.serial y.ipc
      return ({ y with receivedframes := y.receivedframes + 1, seqnr := seqnr },
        .getdata (payload.length - 22) (frameOf payload) :: calls)
    else some ({ y with lostframes := y.lostframes + 1 }, [])

/-- The closings of a run, one after the other. -/
def closeAll (cfg : Config) (clock : ℕ → ℤ) :
    List Closing → Tally → Option (Tally × List Call)
  | [], y => some (y, [])
  | c :: cs, y => do
    let (y, calls) ← close cfg clock c y
    let (y, rest) ← closeAll cfg clock cs y
    return (y, calls ++ rest)

theorem closeAll_singleton (cfg : Config) (clock : ℕ → ℤ) (c : Closing) (y : Tally) :
    closeAll cfg clock [c] y = close cfg clock c y := by
  rw [closeAll]
  cases close cfg clock c y with
  | none => rfl
  | some r => exact congrArg (fun calls => some (r.1, calls)) (List.append_nil r.2)

/-- The closings of two stretches. -/
theorem closeAll_append (cfg : Config) (clock : ℕ → ℤ) (cs cs' : List Closing) :
    ∀ y : Tally, closeAll cfg clock (cs ++ cs') y =
      (closeAll cfg clock cs y).bind fun r =>
        (closeAll cfg clock cs' r.1).map fun r' => (r'.1, r.2 ++ r'.2) := by
  induction cs with
  | nil =>
    intro y
    rw [List.nil_append, closeAll, Option.bind_some]
    cases closeAll cfg clock cs' y <;> rfl
  | cons c cs ih =>
    intro y
    rw [List.cons_append, closeAll, closeAll]
    cases close cfg clock c y with
    | none => rfl
    | some r =>
      simp only [Option.bind_eq_bind, Option.bind_some, ih, Option.pure_def]
      cases closeAll cfg clock cs r.1 with
      | none => rfl
      | some r' =>
        simp only [Option.bind_some]
        cases closeAll cfg clock cs' r'.1 with
        | none => rfl
        | some r'' => simp only [Option.map_some, Option.bind_some, List.append_assoc]

/-! ## The simulation relation

For each state of the deframer it says which of the decoder's variables mean something
there. The others may hold anything, apart from the counters of the data state, which are
at rest outside it. -/

/-- The counters of the data state are at rest. -/
structure Idle (d : DemodState) : Prop where
  /-- no stuffed bit is due -/
  bitstuff : d.bitstuff = 0
  /-- no ones are counted -/
  antallenner : d.antallenner = 0
  /-- and nothing is collected -/
  bufferpos : d.bufferpos = 0

/-- The buffer holds the collected bits, and there is room for one more. -/
structure Holding (d : DemodState) (payload : List Bool) : Prop where
  /-- as many bits as the deframer has -/
  bufferpos : d.bufferpos = payload.length
  /-- so the next store is inside the array -/
  room : payload.length ≤ 448
  /-- in their order, one a byte -/
  bits : HoldsBits d.buffer 0 payload

/-- The code's three variables for the run of ones. -/
structure CountsOnes (d : DemodState) (ones : ℕ) : Prop where
  /-- a sixth one ends the data -/
  le : ones ≤ 5
  /-- a stuffed bit is due behind five ones -/
  bitstuff : d.bitstuff = if ones = 5 then 1 else 0
  /-- the code counts pairs of ones, so it is one behind -/
  antallenner : d.antallenner = if ones = 5 then 0 else ones - 1
  last : d.last = decide (ones ≠ 0)

/-- The decoder is in the state of the deframer. It leaves open what the source leaves
open: in `ST_DATA` the counter of alternations may be anything, as nothing reads it there. -/
def Simulates (d : DemodState) : Deframer → Prop
  | .skurr alternations nstartsign last =>
    d.state = .skurr ∧ d.antallpreamble = alternations ∧ d.nstartsign = nstartsign ∧
      d.last = last ∧ Idle d
  | .preamble nstartsign last =>
    d.state = .preamble ∧ d.nstartsign = nstartsign ∧ d.last = last ∧ Idle d
  | .startsign nstartsign => d.state = .startsign ∧ d.nstartsign = nstartsign ∧ Idle d
  | .data payload ones => d.state = .data ∧ Holding d payload ∧ CountsOnes d ones
  | .stop payload => d.state = .stopsign ∧ Holding d payload

/-- The decoder's state that goes with a state of the deframer. -/
def Deframer.st : Deframer → St
  | .skurr .. => .skurr
  | .preamble .. => .preamble
  | .startsign .. => .startsign
  | .data .. => .data
  | .stop .. => .stopsign

/-- The states go together. -/
theorem Simulates.state_eq {d : DemodState} {a : Deframer} (h : Simulates d a) :
    d.state = a.st := by
  cases a <;> exact h.1

/-- A new decoder waits, as the deframer does at the start. -/
theorem simulates_initial (mem : Allocated) (serial ipc : Bool) (chanid : UInt8) :
    Simulates (protodecInitialize mem serial ipc chanid) .start :=
  ⟨rfl, rfl, rfl, rfl, rfl, rfl, rfl⟩

/-- So does one that was reset. -/
theorem simulates_reset (d : DemodState) (b : Bool) :
    Simulates { protodecReset d with last := b } (.skurr 0 0 b) :=
  ⟨rfl, rfl, rfl, rfl, rfl, rfl, rfl⟩

/-! ## One bit

One lemma a state of the decoder, each about the branch of `protodecDecodeBit`
for that state. -/

/-- Waiting for a training sequence: the counter of alternations is the deframer's. -/
theorem decodeSkurr_simulates {d : DemodState} {alternations nstartsign : ℕ} {last : Bool}
    (h : Simulates d (.skurr alternations nstartsign last)) (b : Bool) :
    Simulates { decodeSkurr b d with last := b }
      (Deframer.stepSkurr alternations nstartsign last b) ∧
    (decodeSkurr b d).tally = d.tally := by
  obtain ⟨hstate, rfl, rfl, rfl, hidle⟩ := h
  rw [Deframer.stepSkurr]
  by_cases hstart : (if b ≠ d.last then d.antallpreamble + 1 else 0) > 14 ∧ b = false
  · have hd : decodeSkurr b d = _ :=
      congrArg (fun e : DemodState => { e with nskurr := e.nskurr + 1 }) (if_pos hstart)
    rw [if_pos hstart, hd]
    exact ⟨⟨rfl, rfl, rfl, hidle.1, hidle.2, hidle.3⟩, rfl⟩
  · have hd : decodeSkurr b d = _ :=
      congrArg (fun e : DemodState => { e with nskurr := e.nskurr + 1 }) (if_neg hstart)
    rw [if_neg hstart, hd]
    exact ⟨⟨hstate, rfl, rfl, rfl, hidle.1, hidle.2, hidle.3⟩, rfl⟩

/-- Behind a training sequence. The counter of the flag's ones stands in `nstartsign`. -/
theorem decodePreamble_simulates {d : DemodState} {nstartsign : ℕ} {last : Bool}
    (h : Simulates d (.preamble nstartsign last)) (b : Bool) :
    Simulates { decodePreamble b d with last := b } (Deframer.stepPreamble nstartsign last b) ∧
    (decodePreamble b d).tally = d.tally := by
  obtain ⟨hstate, rfl, rfl, hidle⟩ := h
  -- whichever branch is taken, `npreamble` is counted up after it
  have hd : ∀ {e : DemodState}, (if b ≠ d.last ∧ d.nstartsign = 0 then _ else _) = e →
      decodePreamble b d = { e with npreamble := e.npreamble + 1 } :=
    fun h => congrArg (fun e : DemodState => { e with npreamble := e.npreamble + 1 }) h
  rw [Deframer.stepPreamble]
  by_cases halt : b ≠ d.last ∧ d.nstartsign = 0
  · rw [if_pos halt, hd (if_pos halt)]
    exact ⟨⟨hstate, rfl, rfl, hidle.1, hidle.2, hidle.3⟩, rfl⟩
  rw [if_neg halt]
  cases b with
  | true =>
    rw [if_pos rfl]
    by_cases h0 : d.nstartsign = 0
    · rw [if_pos h0, hd ((if_neg halt).trans ((if_pos rfl).trans (if_pos h0)))]
      exact ⟨⟨hstate, rfl, rfl, hidle.1, hidle.2, hidle.3⟩, rfl⟩
    rw [if_neg h0]
    by_cases h5 : d.nstartsign = 5
    · rw [if_pos h5, hd ((if_neg halt).trans ((if_pos rfl).trans ((if_neg h0).trans (if_pos h5))))]
      exact ⟨⟨rfl, congrArg (· + 1) h5, hidle.1, hidle.2, hidle.3⟩, rfl⟩
    · rw [if_neg h5, hd ((if_neg halt).trans ((if_pos rfl).trans ((if_neg h0).trans (if_neg h5))))]
      exact ⟨⟨hstate, rfl, rfl, hidle.1, hidle.2, hidle.3⟩, rfl⟩
  | false =>
    rw [if_neg Bool.false_ne_true]
    by_cases h0 : d.nstartsign = 0
    · rw [if_pos h0, hd ((if_neg halt).trans ((if_neg Bool.false_ne_true).trans (if_pos h0)))]
      exact ⟨⟨hstate, rfl, rfl, hidle.1, hidle.2, hidle.3⟩, rfl⟩
    · rw [if_neg h0, hd ((if_neg halt).trans ((if_neg Bool.false_ne_true).trans (if_neg h0)))]
      exact ⟨⟨rfl, rfl, rfl, rfl, rfl, rfl, rfl⟩, rfl⟩

/-- The end of the start flag. -/
theorem decodeStartsign_simulates {d : DemodState} {nstartsign : ℕ}
    (h : Simulates d (.startsign nstartsign)) (b : Bool) :
    Simulates { decodeStartsign b d with last := b } (Deframer.stepStartsign nstartsign b) ∧
    (decodeStartsign b d).tally = d.tally := by
  obtain ⟨hstate, rfl, hidle⟩ := h
  -- whichever branch is taken, `nstartsign` is counted up after it
  have hd : ∀ {e : DemodState}, (if d.nstartsign ≥ 7 then _ else _) = e →
      decodeStartsign b d = { e with nstartsign := e.nstartsign + 1 } :=
    fun h => congrArg (fun e : DemodState => { e with nstartsign := e.nstartsign + 1 }) h
  rw [Deframer.stepStartsign]
  by_cases h7 : d.nstartsign ≥ 7
  · rw [if_pos h7]
    cases b with
    | false =>
      rw [if_pos rfl, hd ((if_pos h7).trans (if_pos rfl))]
      exact ⟨⟨rfl, ⟨rfl, Nat.zero_le _, fun i hi => absurd hi (Nat.not_lt_zero i)⟩,
        ⟨Nat.zero_le _, hidle.1, rfl, rfl⟩⟩, rfl⟩
    | true =>
      rw [if_neg Bool.false_ne_true.symm, hd ((if_pos h7).trans (if_neg Bool.false_ne_true.symm))]
      exact ⟨⟨rfl, rfl, rfl, rfl, rfl, rfl, rfl⟩, rfl⟩
  · rw [if_neg h7]
    cases b with
    | false =>
      rw [if_pos rfl, hd ((if_neg h7).trans (if_pos rfl))]
      exact ⟨⟨rfl, rfl, rfl, rfl, rfl, rfl, rfl⟩, rfl⟩
    | true =>
      rw [if_neg Bool.false_ne_true.symm, hd ((if_neg h7).trans (if_neg Bool.false_ne_true.symm))]
      exact ⟨⟨hstate, rfl, hidle.1, hidle.2, hidle.3⟩, rfl⟩

/-- Storing the next bit behind the collected ones. -/
theorem holdsBits_concat {buffer : Frame} {payload : List Bool} (h : HoldsBits buffer 0 payload)
    (hroom : payload.length < demodBufferLen) (b : Bool) :
    HoldsBits (buffer.setIfInBounds payload.length (byte b)) 0 (payload ++ [b]) := by
  intro i hi
  rw [List.length_append, List.length_singleton] at hi
  rw [Nat.zero_add, Vector.getElem?_setIfInBounds]
  by_cases hlast : i = payload.length
  · rw [if_pos hlast.symm, if_pos (hlast ▸ hroom), hlast, List.getElem?_concat_length]
    rfl
  · have hlt : i < payload.length := by omega
    rw [if_neg (Ne.symm hlast), List.getElem?_append_left hlt, ← h i hlt, Nat.zero_add]

/-- What `decodeData` does to the three variables for the run of ones. -/
theorem countsOnes_next {d : DemodState} {ones : ℕ} (h : CountsOnes d ones) (h5 : ones ≠ 5)
    (b : Bool) :
    ∃ antallenner bitstuff : ℕ,
      (if b = d.last ∧ b = true then
          if d.antallenner + 1 = 4 then
            { d with antallenner := 0, bitstuff := 1 }
          else { d with antallenner := d.antallenner + 1 }
        else { d with antallenner := 0 }) =
        { d with antallenner := antallenner, bitstuff := bitstuff } ∧
      ∀ buffer bufferpos ndata, CountsOnes
        { d with
          antallenner := antallenner
          bitstuff := bitstuff
          buffer := buffer
          bufferpos := bufferpos
          ndata := ndata
          last := b } (nextOnes ones b) := by
  have hle := h.le
  have hstuff : d.bitstuff = 0 := by rw [h.bitstuff, if_neg h5]
  have hrun : d.antallenner = ones - 1 := by rw [h.antallenner, if_neg h5]
  have hlast : d.last = decide (ones ≠ 0) := h.last
  rw [nextOnes, if_neg h5]
  cases b with
  | false =>
    refine ⟨0, d.bitstuff, if_neg fun hh => Bool.false_ne_true hh.2, fun _ _ _ => ?_⟩
    exact ⟨Nat.zero_le _, hstuff, rfl, rfl⟩
  | true =>
    rw [if_pos rfl]
    -- the first one of a row is not counted, and the fifth one announces a stuffed bit
    by_cases h0 : ones = 0
    · have hfirst : ¬ (true = d.last ∧ true = true) := by
        rw [hlast, h0]
        simp
      refine ⟨0, d.bitstuff, if_neg hfirst, fun _ _ _ => ?_⟩
      rw [h0]
      exact ⟨by omega, hstuff, rfl, rfl⟩
    have hagain : true = d.last ∧ true = true := ⟨by rw [hlast, decide_eq_true h0], rfl⟩
    by_cases h4 : ones = 4
    · refine ⟨0, 1, (if_pos hagain).trans (if_pos (by omega)), fun _ _ _ => ?_⟩
      rw [h4]
      exact ⟨by omega, rfl, rfl, rfl⟩
    · refine ⟨d.antallenner + 1, d.bitstuff, (if_pos hagain).trans (if_neg (by omega)),
        fun _ _ _ => ⟨by omega, ?_, ?_, ?_⟩⟩
      · rw [if_neg (by omega)]
        exact hstuff
      · rw [if_neg (by omega)]
        change d.antallenner + 1 = _
        omega
      · exact (decide_eq_true (Nat.succ_ne_zero ones)).symm

/-- Inside a frame. Every bit but a stuffed one is stored. -/
theorem decodeData_simulates {d : DemodState} {payload : List Bool} {ones : ℕ}
    (h : Simulates d (.data payload ones)) (b : Bool) :
    ∃ d', decodeData b d = some d' ∧
      Simulates { d' with last := b } (Deframer.stepData payload ones b) ∧
      d'.tally = d.tally := by
  have hsize : demodBufferLen = 450 := rfl
  obtain ⟨hstate, hhold, hones⟩ := h
  have hroom := hhold.room
  rw [Deframer.stepData]
  by_cases h5 : ones = 5
  · -- the bit after five ones is removed, or is the sixth one of a flag
    have hstuff : d.bitstuff ≠ 0 := by
      rw [hones.bitstuff, if_pos h5]
      exact one_ne_zero
    have hrun : d.antallenner = 0 := by rw [hones.antallenner, if_pos h5]
    rw [if_pos h5]
    cases b with
    | true =>
      rw [if_pos rfl]
      exact ⟨_, (if_pos hstuff).trans (if_pos rfl), ⟨rfl, hhold.1, hhold.2, hhold.3⟩, rfl⟩
    | false =>
      rw [if_neg Bool.false_ne_true]
      exact ⟨_, (if_pos hstuff).trans (if_neg Bool.false_ne_true),
        ⟨hstate, ⟨hhold.1, hhold.2, hhold.3⟩, ⟨Nat.zero_le _, rfl, hrun, rfl⟩⟩, rfl⟩
  · -- any other bit is stored
    have hstuff : ¬ d.bitstuff ≠ 0 := by rw [hones.bitstuff, if_neg h5]; simp
    rw [if_neg h5]
    obtain ⟨antallenner, bitstuff, hcount, hnext⟩ := countsOnes_next hones h5 b
    have hwr : wr d.buffer d.bufferpos (byte b) =
        some (d.buffer.setIfInBounds payload.length (byte b)) := by
      rw [hhold.bufferpos]
      exact wr_eq _ _ (by omega)
    -- the loop body, with the counters and the store taken out of it
    have hstore : decodeData b d =
        let d' := { d with
          antallenner := antallenner
          bitstuff := bitstuff
          buffer := d.buffer.setIfInBounds payload.length (byte b)
          bufferpos := d.bufferpos + 1
          ndata := d.ndata + 1 }
        if d.bufferpos + 1 ≥ 449 then some (protodecReset d') else some d' := by
      let store (e : DemodState) (stored : Option Frame) : Option DemodState :=
        stored.bind fun buffer =>
          let e := { e with
            buffer := buffer
            bufferpos := e.bufferpos + 1
            ndata := e.ndata + 1 }
          if e.bufferpos ≥ 449 then some (protodecReset e) else some e
      calc decodeData b d
          = store _ (wr _ _ (byte b)) := if_neg hstuff
        _ = store { d with antallenner := antallenner, bitstuff := bitstuff }
              (wr d.buffer d.bufferpos (byte b)) :=
            congrArg (fun e : DemodState => store e (wr e.buffer e.bufferpos (byte b))) hcount
        _ = _ := congrArg (store _) hwr
    rw [hstore]
    -- a full buffer resets the decoder
    by_cases hfull : payload.length + 1 ≥ 449
    · rw [if_pos hfull]
      exact ⟨_, if_pos (by rw [hhold.bufferpos]; exact hfull), simulates_reset _ b, rfl⟩
    · rw [if_neg hfull]
      refine ⟨_, if_neg (by rw [hhold.bufferpos]; exact hfull), ⟨hstate, ⟨?_, ?_, ?_⟩, hnext _ _ _⟩,
        rfl⟩
      · rw [List.length_append, List.length_singleton, ← hhold.bufferpos]
      · rw [List.length_append, List.length_singleton]
        omega
      · exact holdsBits_concat hhold.bits (by omega) b

/-- The frame check on a decoder that holds a long enough payload. -/
theorem Holding.calculateCrc {d : DemodState} {payload : List Bool} (h : Holding d payload)
    (hlong : payload.length > 22) :
    protodecCalculateCrc (d.bufferpos - 6 - 16 : ℤ) d =
      some (checkPasses payload (payload.length - 22),
        { d with rbuffer := frameOf payload }, []) := by
  have hroom := h.room
  have hbits : (d.bufferpos - 6 - 16 : ℤ) = ((payload.length - 22 : ℕ) : ℤ) := by
    rw [h.bufferpos]
    omega
  rw [hbits]
  exact calculateCrc_eq h.bits (by omega) (by omega) (by change _ ≤ 450; omega)

/-- Handling the frame of a full buffer causes no fault. -/
theorem getdataObs_payload (cfg : Config) (receivedT : ℤ) {payload : List Bool}
    (hroom : payload.length ≤ 448) (chanid seqnr : UInt8) (serial ipc : Bool) :
    ∃ calls seqnr', getdataObs cfg receivedT (payload.length - 22) (frameOf payload) chanid seqnr
      serial ipc = some (calls, seqnr') := by
  have hfill := fillbitsOf_le (payload.length - 22)
  exact getdataObs_isSome cfg receivedT _ _ _ _ _ (by change _ ≤ 450; omega)

/-- Behind six ones: the only state in which a frame is handled. -/
theorem decodeStopsign_simulates (cfg : Config) (clock : ℕ → ℤ) {d : DemodState}
    {payload : List Bool} (h : Simulates d (.stop payload)) (b : Bool) :
    ∃ d' calls, decodeStopsign cfg (clock d.receivedframes) b d = some (d', calls) ∧
      Simulates { d' with last := b } (.skurr 0 0 b) ∧
      closeAll cfg clock (Deframer.closing (.stop payload) b) d.tally = some (d'.tally, calls) := by
  obtain ⟨-, hhold⟩ := h
  rw [decodeStopsign, Deframer.closing]
  by_cases hframe : b = false ∧ payload.length > 22
  · have hpos : b = false ∧ (d.bufferpos - 6 - 16 : ℤ) > 0 :=
      ⟨hframe.1, by rw [hhold.bufferpos]; omega⟩
    have hlen : (d.bufferpos - 6 - 16 : ℤ).toNat = payload.length - 22 := by
      rw [hhold.bufferpos]
      omega
    rw [if_pos hpos, if_pos hframe, hhold.calculateCrc hframe.2, hlen]
    rw [closeAll_singleton]
    simp only [Option.bind_eq_bind, Option.bind_some, close]
    cases checkPasses payload (payload.length - 22) with
    | false => exact ⟨_, _, rfl, simulates_reset _ b, rfl⟩
    | true =>
      obtain ⟨calls, seqnr, hobs⟩ := getdataObs_payload cfg (clock d.receivedframes) hhold.room
        d.chanid d.seqnr d.serial d.ipc
      have hgetdata := protodecGetdata_eq cfg (clock d.receivedframes) (payload.length - 22)
        { d with rbuffer := frameOf payload, receivedframes := d.receivedframes + 1 }
      simp only [hobs] at hgetdata
      obtain ⟨rbuffer, nmea, ser, ipc, hgetdata⟩ := hgetdata
      have hobs' : getdataObs cfg (clock d.tally.receivedframes) (payload.length - 22)
        (frameOf payload) d.tally.chanid d.tally.seqnr d.tally.serial d.tally.ipc =
          some (calls, seqnr) := hobs
      simp only [if_true, hgetdata, hobs', Option.bind_some]
      exact ⟨_, _, rfl, simulates_reset _ b, rfl⟩
  · have hneg : ¬ (b = false ∧ (d.bufferpos - 6 - 16 : ℤ) > 0) := by
      rw [hhold.bufferpos]
      intro hh
      exact hframe ⟨hh.1, by omega⟩
    rw [if_neg hneg, if_neg hframe]
    exact ⟨_, _, rfl, simulates_reset _ b, rfl⟩

/-- One bit of the decoder is one bit of the deframer, and causes what the deframer's
closing causes. There is no fault. This is the only place where the decoder's states are
told apart; whatever is proved of runs later on is proved of the deframer. -/
theorem decodeBit_simulates (cfg : Config) (clock : ℕ → ℤ) {d : DemodState} {a : Deframer}
    (h : Simulates d a) (b : Bool) :
    ∃ d' calls, protodecDecodeBit cfg (clock d.receivedframes) b d = some (d', calls) ∧
      Simulates d' (a.step b) ∧
      closeAll cfg clock (a.closing b) d.tally = some (d'.tally, calls) := by
  cases a with
  | skurr alternations nstartsign last =>
    obtain ⟨hsim, htally⟩ := decodeSkurr_simulates h b
    rw [protodecDecodeBit, h.1]
    exact ⟨_, _, rfl, hsim, by rw [← htally]; rfl⟩
  | preamble nstartsign last =>
    obtain ⟨hsim, htally⟩ := decodePreamble_simulates h b
    rw [protodecDecodeBit, h.1]
    exact ⟨_, _, rfl, hsim, by rw [← htally]; rfl⟩
  | startsign nstartsign =>
    obtain ⟨hsim, htally⟩ := decodeStartsign_simulates h b
    rw [protodecDecodeBit, h.1]
    exact ⟨_, _, rfl, hsim, by rw [← htally]; rfl⟩
  | data payload ones =>
    obtain ⟨d', hdata, hsim, htally⟩ := decodeData_simulates h b
    rw [protodecDecodeBit, h.1]
    simp only [hdata, Option.map_some]
    exact ⟨_, _, rfl, hsim, by rw [← htally]; rfl⟩
  | stop payload =>
    obtain ⟨d', calls, hstop, hsim, hclose⟩ := decodeStopsign_simulates cfg clock h b
    rw [protodecDecodeBit, h.1]
    simp only [hstop]
    exact ⟨_, _, rfl, hsim, hclose⟩

/-- A run of the decoder is a run of the deframer. The induction is on the stream. -/
theorem decode_simulates (cfg : Config) (clock : ℕ → ℤ) (bits : List Bool) :
    ∀ {d : DemodState} {a : Deframer}, Simulates d a →
      ∃ d' calls, protodecDecode cfg clock bits d = some (d', calls) ∧
        Simulates d' (a.run bits) ∧
        closeAll cfg clock (a.closings bits) d.tally = some (d'.tally, calls) := by
  induction bits with
  | nil => exact fun h => ⟨_, _, rfl, h, rfl⟩
  | cons b bits ih =>
    intro d a h
    obtain ⟨d₁, calls₁, hbit, hsim₁, hclose₁⟩ := decodeBit_simulates cfg clock h b
    obtain ⟨d₂, calls₂, hbits, hsim₂, hclose₂⟩ := ih hsim₁
    refine ⟨d₂, calls₁ ++ calls₂, ?_, hsim₂, ?_⟩
    · rw [protodecDecode, hbit]
      simp only [Option.bind_eq_bind, Option.bind_some, hbits]
      rfl
    · rw [Deframer.closings, closeAll_append, hclose₁, Option.bind_some, hclose₂]
      rfl

/-! ## The accepted frames

What the outside sees of a run is what its closings have accepted, and how often the
counters went up. -/

/-- The frame a closing has accepted, as `protodec_getdata` is given it. Nothing is
accepted that does not pass the check, and a frame is accepted once at most. -/
def Closing.accepted : Closing → List (ℕ × Frame)
  | .error => []
  | .frame payload =>
    if checkPasses payload (payload.length - 22) then [(payload.length - 22, frameOf payload)]
    else []

/-- The two ways a closing can go: nothing is called and the sequence number stays, or the
frame passes the check and is handled. Everything later on that asks what a frame has
caused starts from these two. -/
theorem close_cases {cfg : Config} {clock : ℕ → ℤ} {c : Closing} {y y' : Tally}
    {calls : List Call} (h : close cfg clock c y = some (y', calls)) :
    (y'.chanid = y.chanid ∧ y'.serial = y.serial ∧ y'.ipc = y.ipc) ∧
    ((c.accepted = [] ∧ calls = [] ∧ y'.seqnr = y.seqnr) ∨
      ∃ payload calls', c = .frame payload ∧
        c.accepted = [(payload.length - 22, frameOf payload)] ∧
        getdataObs cfg (clock y.receivedframes) (payload.length - 22) (frameOf payload) y.chanid
          y.seqnr y.serial y.ipc = some (calls', y'.seqnr) ∧
        calls = .getdata (payload.length - 22) (frameOf payload) :: calls') := by
  cases c with
  | error =>
    obtain ⟨rfl, rfl⟩ := Prod.mk.inj (Option.some.inj h)
    exact ⟨⟨rfl, rfl, rfl⟩, .inl ⟨rfl, rfl, rfl⟩⟩
  | frame payload =>
    rw [close] at h
    rw [Closing.accepted]
    cases hpass : checkPasses payload (payload.length - 22) with
    | false =>
      rw [hpass] at h
      obtain ⟨rfl, rfl⟩ := Prod.mk.inj (Option.some.inj h)
      exact ⟨⟨rfl, rfl, rfl⟩, .inl ⟨rfl, rfl, rfl⟩⟩
    | true =>
      rw [hpass, if_pos rfl] at h
      obtain ⟨⟨calls', seqnr⟩, hobs, h⟩ := Option.bind_eq_some_iff.mp h
      obtain ⟨rfl, rfl⟩ := Prod.mk.inj (Option.some.inj h)
      exact ⟨⟨rfl, rfl, rfl⟩, .inr ⟨payload, calls', rfl, rfl, hobs, rfl⟩⟩

/-- A run changes neither the channel nor the two outputs. -/
theorem closeAll_config {cfg : Config} {clock : ℕ → ℤ} (cs : List Closing) :
    ∀ {y y' : Tally} {calls : List Call}, closeAll cfg clock cs y = some (y', calls) →
      y'.chanid = y.chanid ∧ y'.serial = y.serial ∧ y'.ipc = y.ipc := by
  induction cs with
  | nil =>
    intro y y' calls h
    obtain ⟨rfl, -⟩ := Prod.mk.inj (Option.some.inj h)
    exact ⟨rfl, rfl, rfl⟩
  | cons c cs ih =>
    intro y y' calls h
    obtain ⟨⟨y₁, calls₁⟩, hclose, h⟩ := Option.bind_eq_some_iff.mp h
    obtain ⟨⟨y₂, calls₂⟩, hrest, h⟩ := Option.bind_eq_some_iff.mp h
    obtain ⟨rfl, -⟩ := Prod.mk.inj (Option.some.inj h)
    obtain ⟨⟨hchanid, hserial, hipc⟩, -⟩ := close_cases hclose
    obtain ⟨hchanid', hserial', hipc'⟩ := ih hrest
    exact ⟨hchanid'.trans hchanid, hserial'.trans hserial, hipc'.trans hipc⟩

/-- What one closing counts and hands over. -/
theorem close_accepted {cfg : Config} {clock : ℕ → ℤ} {c : Closing} {y y' : Tally}
    {calls : List Call} (h : close cfg clock c y = some (y', calls)) :
    getdataCalls calls = c.accepted ∧
    y'.receivedframes = y.receivedframes + c.accepted.length ∧
    (c.accepted ≠ [] → y'.lostframes = y.lostframes ∧ y'.lostframes2 = y.lostframes2) := by
  cases c with
  | error =>
    obtain ⟨rfl, rfl⟩ := Prod.mk.inj (Option.some.inj h)
    exact ⟨rfl, rfl, fun hne => absurd rfl hne⟩
  | frame payload =>
    rw [close] at h
    rw [Closing.accepted]
    cases hpass : checkPasses payload (payload.length - 22) with
    | false =>
      rw [hpass] at h
      obtain ⟨rfl, rfl⟩ := Prod.mk.inj (Option.some.inj h)
      exact ⟨rfl, rfl, fun hne => absurd rfl hne⟩
    | true =>
      rw [hpass, if_pos rfl] at h
      obtain ⟨⟨calls', seqnr⟩, hobs, h⟩ := Option.bind_eq_some_iff.mp h
      obtain ⟨rfl, rfl⟩ := Prod.mk.inj (Option.some.inj h)
      refine ⟨?_, rfl, fun _ => ⟨rfl, rfl⟩⟩
      exact congrArg (_ :: ·) (getdataObs_getdataCalls hobs)

/-- What the closings of a run count and hand over. -/
theorem closeAll_accepted {cfg : Config} {clock : ℕ → ℤ} {cs : List Closing} :
    ∀ {y y' : Tally} {calls : List Call}, closeAll cfg clock cs y = some (y', calls) →
      getdataCalls calls = cs.flatMap Closing.accepted ∧
      y'.receivedframes = y.receivedframes + (cs.flatMap Closing.accepted).length ∧
      ((∀ c ∈ cs, c.accepted ≠ []) →
        y'.lostframes = y.lostframes ∧ y'.lostframes2 = y.lostframes2) := by
  induction cs with
  | nil =>
    intro y y' calls h
    obtain ⟨rfl, rfl⟩ := Prod.mk.inj (Option.some.inj h)
    exact ⟨rfl, rfl, fun _ => ⟨rfl, rfl⟩⟩
  | cons c cs ih =>
    intro y y' calls h
    obtain ⟨⟨y₁, calls₁⟩, hclose, h⟩ := Option.bind_eq_some_iff.mp h
    obtain ⟨⟨y₂, calls₂⟩, hrest, h⟩ := Option.bind_eq_some_iff.mp h
    obtain ⟨rfl, rfl⟩ := Prod.mk.inj (Option.some.inj h)
    obtain ⟨hcalls₁, hcount₁, hlost₁⟩ := close_accepted hclose
    obtain ⟨hcalls₂, hcount₂, hlost₂⟩ := ih hrest
    rw [List.flatMap_cons, List.length_append]
    refine ⟨by rw [getdataCalls_append, hcalls₁, hcalls₂], by omega, fun hall => ?_⟩
    obtain ⟨h₁, h₁'⟩ := hlost₁ (hall c (List.mem_cons_self ..))
    obtain ⟨h₂, h₂'⟩ := hlost₂ fun c' hc' => hall c' (List.mem_cons_of_mem _ hc')
    exact ⟨h₂.trans h₁, h₂'.trans h₁'⟩

/-- A frame is accepted at the end of a closing flag only. -/
theorem accepted_closing {a : Deframer} {b : Bool}
    (h : (a.closing b).flatMap Closing.accepted ≠ []) :
    ∃ payload, a = .stop payload ∧ b = false ∧ 22 < payload.length ∧
      checkPasses payload (payload.length - 22) = true ∧
      (a.closing b).flatMap Closing.accepted = [(payload.length - 22, frameOf payload)] := by
  cases a with
  | stop payload =>
    rw [Deframer.closing, List.flatMap_singleton] at h ⊢
    by_cases hframe : b = false ∧ payload.length > 22
    · rw [if_pos hframe] at h ⊢
      rw [Closing.accepted] at h ⊢
      by_cases hpass : checkPasses payload (payload.length - 22) = true
      · rw [if_pos hpass]
        exact ⟨payload, rfl, hframe.1, hframe.2, hpass, rfl⟩
      · rw [if_neg hpass] at h
        exact absurd rfl h
    · rw [if_neg hframe] at h
      exact absurd rfl h
  | _ => exact absurd rfl h

/-! ## Collecting a clean stream

This is what the data of a frame does on its way: the stuffed bits are taken out again. -/

/-- In the data state a stream without a sixth one is collected, unstuffed, as
long as it fits. -/
theorem Deframer.run_clean (raw : List Bool) :
    ∀ (payload : List Bool) (ones : ℕ), Clean ones raw →
      payload.length + (unstuffFrom ones raw).length ≤ 448 →
      (Deframer.data payload ones).run raw =
        .data (payload ++ unstuffFrom ones raw) (onesFrom ones raw) ∧
      (Deframer.data payload ones).closings raw = [] := by
  induction raw with
  | nil => exact fun payload ones _ _ => ⟨by rw [unstuffFrom, List.append_nil]; rfl, rfl⟩
  | cons b raw ih =>
    intro payload ones hclean hfit
    rw [run_cons, closings, onesFrom_cons]
    obtain ⟨hb, hclean⟩ := hclean
    rw [unstuffFrom, List.length_append] at hfit
    rw [unstuffFrom]
    by_cases h5 : ones = 5
    · obtain rfl := hb h5
      have hstep : (Deframer.data payload ones).step false =
          .data payload (nextOnes ones false) := by
        rw [Deframer.step, Deframer.stepData, if_pos h5, nextOnes, if_pos h5]
        rfl
      rw [if_pos h5, List.length_nil] at hfit
      rw [hstep, if_pos h5, List.nil_append]
      exact ih payload _ hclean (by omega)
    · rw [if_neg h5, List.length_singleton] at hfit
      have hstep : (Deframer.data payload ones).step b =
          .data (payload ++ [b]) (nextOnes ones b) := by
        rw [Deframer.step, Deframer.stepData, if_neg h5, if_neg (by omega)]
      rw [hstep, if_neg h5, ← List.append_assoc]
      exact ih _ _ hclean (by rw [List.length_append, List.length_singleton]; omega)

end Gnuais
