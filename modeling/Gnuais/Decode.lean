import Gnuais.Nmea
import Gnuais.Lib.Crc

/-!
# The bit decoder

`protodec_sdlc_crc`, `protodec_calculate_crc`, `protodec_getdata` and the state
machine `protodec_decode`. The decoder is called with one bit at a time; a run
over a list of bits is `protodecDecode`, where `clock n` is what `time` returns
while the frame after `n` received ones is handled.

A run is `none` when an array is accessed outside its bounds.
-/

namespace Gnuais

open Buffer Bits

/-! ## The frame check

The check runs over octets that `buffer` holds with their lowest bit first, and leaves the
frame in `rbuffer` with the highest bit of each octet first. It is done bit by bit, as the
source does it; that the loop is the cyclic code of the standard is shown in
`FrameCheck.lean`. -/

/-- The inner loop of `protodec_sdlc_crc`, `for (; c > 1; c >>= 1)`. A 16-bit
`c` is at most one after 15 steps, so `left` never runs out. -/
def sdlcLoop (left : ℕ) (c crc : BitVec 16) : BitVec 16 :=
  match left with
  | 0 => crc
  | left + 1 =>
    if c > 1#16 then
      sdlcLoop left (c >>> 1)
        (if (crc ^^^ c) &&& 1#16 ≠ 0#16 then (crc >>> 1) ^^^ 0x8408#16 else crc >>> 1)
    else crc

/-- `protodec_sdlc_crc` -/
def protodecSdlcCrc (data : List UInt8) : BitVec 16 :=
  ~~~ data.foldl (fun crc o => sdlcLoop 16 (0x100#16 + o.toBitVec.setWidth 16) crc) 0xffff#16

/-- One octet of `buf`: eight bytes of `buffer`, each shifted to its place. -/
def packOctet (buffer : Frame) (j : ℕ) : Option UInt8 :=
  (List.range 8).foldlM
    (fun tmp i => do
      let b ← buffer[i + 8 * j]?
      return tmp ||| (b <<< UInt8.ofNat i)) 0

/-- The copy loop of `protodec_calculate_crc` over the pairs `(j, i)`: the
result is `false` when it left through the error branch. -/
def storeBits (buf : List UInt8) : List (ℕ × ℕ) → Frame → Option (Bool × Frame)
  | [], rbuffer => some (true, rbuffer)
  | (j, i) :: rest, rbuffer =>
    let x := j * 8 + i
    if x ≥ demodBufferLen then some (false, rbuffer)
    else do
      let o ← buf[j]?
      let rbuffer ← wr rbuffer x ((o >>> UInt8.ofNat (7 - i)) &&& 1)
      storeBits buf rest rbuffer

/-- The order in which the copy loop visits its indices. -/
def bitIndices (lengthBytes : ℕ) : List (ℕ × ℕ) :=
  (List.range lengthBytes).flatMap fun j => (List.range 8).map fun i => (j, i)

/-- The messages of the two error branches of `protodec_calculate_crc`. -/
def crcLengthError : String := "protodec_calculate_crc: length_bits <= 0!"

@[inherit_doc crcLengthError]
def crcOverrunError : String := "protodec_calculate_crc: would run over rbuffer length"

/-- `protodec_calculate_crc`: whether the frame check is right, the new
`rbuffer` and what was logged. -/
def protodecCalculateCrc (lengthBits : ℤ) (d : DemodState) :
    Option (Bool × DemodState × List Call) :=
  if lengthBits ≤ 0 then some (false, d, [.hlog crcLengthError])
  else do
    let lengthBytes := lengthBits.toNat / 8
    let buflen := lengthBytes + 2
    let buf ← (List.range buflen).mapM (packOctet d.buffer)
    let crc := protodecSdlcCrc buf
    let (done, rbuffer) ←
      storeBits buf (bitIndices lengthBytes) (Vector.replicate demodBufferLen 0)
    if done then return (crc = 0x0f47#16, { d with rbuffer := rbuffer }, [])
    else return (false, { d with rbuffer := rbuffer }, [.hlog crcOverrunError])

/-! ## Accepted frames

A frame that passed the check is written out as NMEA sentences whatever its contents are,
as long as its type is known, and then handed to the decoder for its type. -/

/-- The fill bits `protodec_getdata` appends: a sentence carries six bits a letter, so the
frame is filled up to a multiple of six. -/
def fillbitsOf (bufferlen : ℕ) : ℕ := if bufferlen % 6 > 0 then 6 - bufferlen % 6 else 0

/-- `protodec_getdata`. The stores behind the frame are checked: `rbuffer` may be too
short for the fill bits, and then the model faults. -/
def protodecGetdata (cfg : Config) (receivedT : ℤ) (bufferlen : ℕ) (d : DemodState) :
    Option (DemodState × List Call) := do
  let type := cUChar (← protodecHenten 0 6 d.rbuffer)
  if type < 1 ∨ type > maxAisPacketType then return (d, [])
  else do
    let mmsi ← protodecHenten 8 30 d.rbuffer
    let fillbits := fillbitsOf bufferlen
    let rbuffer ← storeAt d.rbuffer bufferlen (List.replicate fillbits 0)
    let bufferlen := bufferlen + fillbits
    let (d, calls) ←
      protodecGenerateNmea cfg receivedT bufferlen fillbits { d with rbuffer := rbuffer }
    let seqnr := d.seqnr + 1
    let d := { d with seqnr := if seqnr > 9 then 0 else seqnr }
    if cfg.skipType type then return (d, calls)
    else do
      let messages ← messageCalls cfg type bufferlen d.rbuffer receivedT mmsi
      let nmea ← cString d.nmea
      return (d, calls ++ .printf (.frame d.chanid type mmsi) :: messages
        ++ [.printf (.sentence nmea)])

/-! ## The state machine

One definition for each state. Every branch sets the fields the source sets there and no
others, also where the source forgets one: `decodeStartsign` counts `nstartsign` up after
a reset, so the counter is not 0 when the next training sequence is looked for. -/

/-- `case ST_DATA`. A bit that follows five ones is not stored. It is either a zero that
the sender put in, or the sixth one of the end flag. Otherwise the bit is stored, and the
pairs of ones are counted: the fourth pair in a row means five ones. -/
def decodeData (b : Bool) (d : DemodState) : Option DemodState :=
  if d.bitstuff ≠ 0 then
    if b then some { d with state := .stopsign, ndata := 0, bitstuff := 0 }
    else some { d with ndata := d.ndata + 1, last := b, bitstuff := 0 }
  else do
    let d :=
      if b = d.last ∧ b = true then
        let d := { d with antallenner := d.antallenner + 1 }
        if d.antallenner = 4 then { d with bitstuff := 1, antallenner := 0 } else d
      else { d with antallenner := 0 }
    let buffer ← wr d.buffer d.bufferpos (byte b)
    let d := { d with buffer := buffer, bufferpos := d.bufferpos + 1, ndata := d.ndata + 1 }
    if d.bufferpos ≥ 449 then some (protodecReset d) else some d

/-- `case ST_SKURR`. More than fourteen alternations that end with a zero make a training
sequence. -/
def decodeSkurr (b : Bool) (d : DemodState) : DemodState :=
  let d := { d with antallpreamble := if b ≠ d.last then d.antallpreamble + 1 else 0 }
  let d := { d with last := b }
  let d :=
    if d.antallpreamble > 14 ∧ b = false then
      { d with state := .preamble, nskurr := 0, antallpreamble := 0 }
    else d
  { d with nskurr := d.nskurr + 1 }

/-- `case ST_PREAMBLE`. `nstartsign` counts two equal zeros as 1, sets it to 3 at the
second of two ones, and so reaches 6 with the fifth one of the start flag. -/
def decodePreamble (b : Bool) (d : DemodState) : DemodState :=
  let d :=
    if b ≠ d.last ∧ d.nstartsign = 0 then { d with antallpreamble := d.antallpreamble + 1 }
    else if b then
      if d.nstartsign = 0 then { d with nstartsign := 3, last := b }
      else if d.nstartsign = 5 then
        { d with
          nstartsign := d.nstartsign + 1
          npreamble := 0
          antallpreamble := 0
          state := .startsign }
      else { d with nstartsign := d.nstartsign + 1 }
    else if d.nstartsign = 0 then { d with nstartsign := 1 }
    else protodecReset d
  { d with npreamble := d.npreamble + 1 }

/-- `case ST_STARTSIGN`. The counter is bumped after a reset as well. -/
def decodeStartsign (b : Bool) (d : DemodState) : DemodState :=
  let d :=
    if d.nstartsign ≥ 7 then
      if b = false then
        { d with
          state := .data
          nstartsign := 0
          antallenner := 0
          buffer := Vector.replicate demodBufferLen 0
          bufferpos := 0 }
      else protodecReset d
    else if b = false then protodecReset d
    else d
  { d with nstartsign := d.nstartsign + 1 }

/-- `case ST_STOPSIGN`. The bit after six ones must be a zero, and the frame must be
longer than its check and the six bits of the flag that were stored with it. Whatever
comes out, the decoder starts over. -/
def decodeStopsign (cfg : Config) (receivedT : ℤ) (b : Bool) (d : DemodState) :
    Option (DemodState × List Call) := do
  let bufferlength : ℤ := d.bufferpos - 6 - 16
  let (d, calls) ←
    if b = false ∧ bufferlength > 0 then do
      let (correct, d, logged) ← protodecCalculateCrc bufferlength d
      if correct then do
        let d := { d with receivedframes := d.receivedframes + 1 }
        let bufferlen := bufferlength.toNat
        let (d', calls) ← protodecGetdata cfg receivedT bufferlen d
        some (d', logged ++ .getdata bufferlen d.rbuffer :: calls)
      else some ({ d with lostframes := d.lostframes + 1 }, logged)
    else some ({ d with lostframes2 := d.lostframes2 + 1 }, [])
  return (protodecReset d, calls)

/-- One turn of the loop of `protodec_decode`. `last` is set behind the switch, so it is
the bit itself also where a state stored something else there. -/
def protodecDecodeBit (cfg : Config) (receivedT : ℤ) (b : Bool) (d : DemodState) :
    Option (DemodState × List Call) := do
  let (d, calls) ←
    match d.state with
    | .data => (decodeData b d).map fun d => (d, [])
    | .skurr => some (decodeSkurr b d, [])
    | .preamble => some (decodePreamble b d, [])
    | .startsign => some (decodeStartsign b d, [])
    | .stopsign => decodeStopsign cfg receivedT b d
  return ({ d with last := b }, calls)

/-- `protodec_decode` over a list of bits. How the bits are cut into calls makes no
difference (`protodecDecode_append`), so a run is about the whole stream. -/
def protodecDecode (cfg : Config) (clock : ℕ → ℤ) :
    List Bool → DemodState → Option (DemodState × List Call)
  | [], d => some (d, [])
  | b :: bs, d => do
    let (d, calls) ← protodecDecodeBit cfg (clock d.receivedframes) b d
    let (d, rest) ← protodecDecode cfg clock bs d
    return (d, calls ++ rest)

theorem protodecDecode_append (cfg : Config) (clock : ℕ → ℤ) (s t : List Bool) :
    ∀ d : DemodState, protodecDecode cfg clock (s ++ t) d =
      (protodecDecode cfg clock s d).bind fun r =>
        (protodecDecode cfg clock t r.1).map fun r' => (r'.1, r.2 ++ r'.2) := by
  induction s with
  | nil =>
    intro d
    rw [List.nil_append, protodecDecode, Option.bind_some]
    cases protodecDecode cfg clock t d <;> rfl
  | cons b s ih =>
    intro d
    rw [List.cons_append, protodecDecode, protodecDecode]
    cases protodecDecodeBit cfg (clock d.receivedframes) b d with
    | none => rfl
    | some r =>
      simp only [Option.bind_eq_bind, Option.bind_some, ih, Option.pure_def]
      cases protodecDecode cfg clock s r.1 with
      | none => rfl
      | some r' =>
        simp only [Option.bind_some]
        cases protodecDecode cfg clock t r'.1 with
        | none => rfl
        | some r'' => simp only [Option.map_some, Option.bind_some, List.append_assoc]

end Gnuais
