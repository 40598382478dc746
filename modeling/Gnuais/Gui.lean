import Gnuais.Field

/-!
# The map window's receiver

The thread of `gui.c` that reads sentences from the daemon's socket. One pass
of its loop takes what one `read` returned, looks for a sentence in it, appends
its payload to `aisline`, and after the last sentence of a message calls
`aisdecode`, which turns the letters into bits in its static `r_buffer` and
stores the fields of the message types the map knows.

* `GuiState` — the locals of the thread that live from one read to the next,
  and the static array of `aisdecode`.
* `GuiCall` — the calls a pass makes, with what `aisdecode` leaves behind.
* `threadenRead` — the body of the loop, `threaden` — the loop.

As in the decoder, an access outside an array is `none`. What `nmeabuffer`,
`aisline` and `shipd` hold before their first store is arbitrary. The messages
printed to the terminal are left out.
-/

namespace Gnuais

open Buffer

/-- `nmeabuffer` -/
abbrev NmeaBuffer : Type := Vector UInt8 256

/-- `aisline` -/
abbrev AisLine : Type := Vector UInt8 500

/-- `r_buffer` of `aisdecode` -/
abbrev RBuffer : Type := Vector UInt8 600

/-- `shipdata`. `type` and `mmsi` are `int` in C. The thread stores numbers of at most 30
bits in them and does nothing with them but tests for equality, so they are natural
numbers here; what an `int` holds before its first store is taken by its bit pattern. -/
structure ShipData where
  /-- the message type, as far as the window tells them apart -/
  type : ℕ
  /-- the number of the ship -/
  mmsi : ℕ
  /-- in degrees, as are the longitude, the course and the heading -/
  latitude : FloatExpr
  longitude : FloatExpr
  /-- `speed`, over ground, in knots -/
  speed : FloatExpr
  course : FloatExpr
  heading : FloatExpr
  deriving DecidableEq, Repr

/-- A call made in one pass of the loop. -/
inductive GuiCall where
  /-- `aisdecode`, with `lengde` and `r_buffer` as it leaves them -/
  | aisdecode (lengde : ℕ) (rBuffer : RBuffer)
  /-- `updateship` with the fields of `shipd` -/
  | updateship (shipd : ShipData)
  deriving DecidableEq, Repr

/-- What the thread keeps from one read to the next. -/
structure GuiState where
  /-- what the last `read` stored, and behind it what earlier ones did -/
  nmeabuffer : NmeaBuffer
  /-- the number of letters in `aisline` -/
  lettersread : ℕ
  /-- the number of the sentence that was taken last, within its message -/
  previoussentence : ℤ
  /-- the payloads of the message so far, one behind the other -/
  aisline : AisLine
  /-- the bits of the message that was decoded last; it is never cleared -/
  rBuffer : RBuffer
  /-- the fields of the last message with a type the window knows; it is not cleared
  either -/
  shipd : ShipData

/-- The state when the loop starts. -/
def GuiState.initial (nmeabuffer : NmeaBuffer) (aisline : AisLine) (shipd : ShipData) :
    GuiState where
  nmeabuffer := nmeabuffer
  lettersread := 0
  previoussentence := 0
  aisline := aisline
  rBuffer := Vector.replicate 600 0
  shipd := shipd

/-! ## `aisdecode`

The window repeats part of the daemon's decoder in its own words. It reads fewer fields,
keeps the bits one a byte in an array of 600, and never looks at the length of the message
again after the bits are stored. -/

/-- `pickone`, the loop of `protodec_henten` over the other array. -/
def pickone (rBuffer : RBuffer) (pos len : ℕ) : Option ℕ := protodecHenten pos len rBuffer

/-- `type1`, a position report. -/
def type1 (rBuffer : RBuffer) (data : ShipData) : Option ShipData := do
  let mmsi ← pickone rBuffer 8 30
  let longitude := longitudeOf (← pickone rBuffer 61 28)
  let latitude := latitudeOf (← pickone rBuffer 89 27)
  let course ← pickone rBuffer 116 12
  let heading ← pickone rBuffer 128 9
  let sog ← pickone rBuffer 50 10
  return { data with
    type := 1
    mmsi := mmsi
    latitude := scaled latitude 600000
    longitude := scaled longitude 600000
    speed := .div (.ofInt sog) (.ofInt 10)
    heading := .ofInt heading
    course := .div (.ofInt course) (.ofInt 10) }

/-- `type4`, a base station. Its latitude keeps its 27 bits unsigned. -/
def type4 (rBuffer : RBuffer) (data : ShipData) : Option ShipData := do
  let mmsi ← pickone rBuffer 8 30
  let longitude := longitudeOf (← pickone rBuffer 79 28)
  let latitude ← pickone rBuffer 107 27
  return { data with
    type := 4
    mmsi := mmsi
    latitude := .div (.ofInt latitude) (.ofInt 600000)
    longitude := .div (.ofInt longitude) (.ofInt 600000) }

/-- `type5`, static data, of which only the number is stored. The name, the
destination, the size and the draught are read to be printed. -/
def type5 (rBuffer : RBuffer) (data : ShipData) : Option ShipData := do
  let mmsi ← pickone rBuffer 8 30
  let _name ← (List.range 20).mapM fun i => pickone rBuffer (112 + 6 * i) 6
  let _destination ← (List.range 20).mapM fun i => pickone rBuffer (302 + 6 * i) 6
  let _a ← pickone rBuffer 240 9
  let _b ← pickone rBuffer 249 9
  let _c ← pickone rBuffer 258 6
  let _d ← pickone rBuffer 264 6
  let _draught ← pickone rBuffer 294 8
  return { data with
    type := 5
    mmsi := mmsi }

/-- The `switch` on the message type. -/
def dispatchType (rBuffer : RBuffer) (data : ShipData) : Option ShipData := do
  match cUChar (← pickone rBuffer 0 6) with
  | 1 => type1 rBuffer data
  | 2 => type1 rBuffer data
  | 3 => type1 rBuffer data
  | 4 => type4 rBuffer data
  | 5 => type5 rBuffer data
  | _ => some data

/-- Bit `j` of the letter `bokstav`, a signed `char`. -/
def letterBit (bokstav : UInt8) (j : ℕ) : UInt8 :=
  let bokstav := bokstav.toInt8
  let bokstav := if bokstav ≤ 87 then bokstav - 48 else bokstav - 56
  ((bokstav >>> Int8.ofNat (5 - j)) &&& 1).toUInt8

/-- The loop of `aisdecode` over `left` more bits from `i` on. -/
def decodeLoop (nmea : AisLine) : ℕ → ℕ → RBuffer → Option (ℕ × RBuffer)
  | 0, i, rBuffer => some (i, rBuffer)
  | left + 1, i, rBuffer => do
    let bokstav ← nmea[i / 6]?
    if bokstav = 44 then some (i, rBuffer)
    else
      let rBuffer ← wr rBuffer i (letterBit bokstav (i % 6))
      decodeLoop nmea left (i + 1) rBuffer

/-- `aisdecode` -/
def aisdecode (nmea : AisLine) (rBuffer : RBuffer) (data : ShipData) :
    Option (ℕ × RBuffer × ShipData) := do
  let letters ← cString nmea
  let (lengde, rBuffer) ← decodeLoop nmea (letters.length * 6) 0 rBuffer
  let data ← dispatchType rBuffer data
  return (lengde, rBuffer, data)

/-! ## `threaden`

A sentence that is cut within its payload is taken for what the read brings of it, and
what stands in a read behind the payload of its first sentence is not looked at. -/

/-- `while (nmeabuffer[m++] != '!') if (m > (r - 1)) break;`, giving `m`. The
index grows at each turn, so more turns than the array has elements end in an
access outside it. -/
def seekStart (nmeabuffer : NmeaBuffer) (r : ℕ) : ℕ → ℕ → Option ℕ
  | 0, _ => none
  | turns + 1, m => do
    let c ← nmeabuffer[m]?
    if c = 33 then some (m + 1)
    else if m + 1 > r - 1 then some (m + 1)
    else seekStart nmeabuffer r turns (m + 1)

/-- `nmeabuffer[m] != '!' || nmeabuffer[m + 1] != 'A' || nmeabuffer[m + 5] != 'M'`,
negated. -/
def startsSentence (nmeabuffer : NmeaBuffer) (m : ℕ) : Option Bool := do
  let bang ← nmeabuffer[m]?
  if bang ≠ 33 then return false
  else
    let a ← nmeabuffer[m + 1]?
    if a ≠ 65 then return false
    else
      let c ← nmeabuffer[m + 5]?
      return c == 77

/-- The loop that looks for the fifth comma, `left` characters from `k` on,
giving `k`. -/
def kommaLoop (nmeabuffer : NmeaBuffer) (m : ℕ) : ℕ → ℕ → ℕ → Option ℕ
  | 0, k, _ => some k
  | left + 1, k, kommas => do
    let c ← nmeabuffer[k + m]?
    let kommas := if c = 44 then kommas + 1 else kommas
    if kommas = 5 then some k
    else kommaLoop nmeabuffer m left (k + 1) kommas

/-- `nmeabuffer[i] - 0x30` -/
def digitAt (nmeabuffer : NmeaBuffer) (i : ℕ) : Option ℤ := do
  let c ← nmeabuffer[i]?
  return c.toInt8.toInt - 48

/-- The loop that copies the payload, `left` characters at most from `pos`
on. -/
def copyLoop (nmeabuffer : NmeaBuffer) : ℕ → ℕ → AisLine → ℕ → Option (AisLine × ℕ)
  | 0, _, aisline, lettersread => some (aisline, lettersread)
  | left + 1, pos, aisline, lettersread => do
    let c ← nmeabuffer[pos]?
    if c = 44 then some (aisline, lettersread)
    else
      let aisline ← wr aisline lettersread c
      copyLoop nmeabuffer left (pos + 1) aisline (lettersread + 1)

/-- The end of the loop body: `aisdecode` after the last sentence, then the
ship `shipd` describes. -/
def finishSentence (sentences sentencenumb : ℤ) (st : GuiState) :
    Option (GuiState × List GuiCall) := do
  let (st, decoded) ←
    if sentencenumb ≥ sentences then do
      let aisline ← wr st.aisline st.lettersread 0
      let (lengde, rBuffer, shipd) ← aisdecode aisline st.rBuffer st.shipd
      some ({ st with aisline, rBuffer, shipd }, [GuiCall.aisdecode lengde rBuffer])
    else some (st, [])
  let st := { st with previoussentence := sentencenumb }
  if st.shipd.type ≠ 1 ∧ st.shipd.type ≠ 2 ∧ st.shipd.type ≠ 3 ∧ st.shipd.type ≠ 4 then
    return (st, decoded)
  else return (st, decoded ++ [GuiCall.updateship st.shipd])

/-- The loop body from the header on: the sentence that starts at `m`. -/
def takeSentence (m r : ℕ) (st : GuiState) : Option (GuiState × List GuiCall) := do
  let k ← kommaLoop st.nmeabuffer m 20 0 0
  let start := k + 1
  let sentences ← digitAt st.nmeabuffer (m + 7)
  let sentencenumb ← digitAt st.nmeabuffer (m + 9)
  if sentencenumb > 1 ∧ st.previoussentence ≠ sentencenumb - 1 then return (st, [])
  else
    let lettersread := if sentencenumb = 1 then 0 else st.lettersread
    let (aisline, lettersread) ←
      copyLoop st.nmeabuffer (r - start - m) (m + start) st.aisline lettersread
    finishSentence sentences sentencenumb { st with aisline, lettersread }

/-- One pass of the loop, for a `read` that returned the characters `bytes`. -/
def threadenRead (bytes : List UInt8) (st : GuiState) : Option (GuiState × List GuiCall) := do
  let r := bytes.length
  let nmeabuffer ← storeAt st.nmeabuffer 0 bytes
  let nmeabuffer ← wr nmeabuffer r 0
  let st := { st with nmeabuffer }
  let m ← seekStart st.nmeabuffer r 257 0
  if m > r - 1 then return (st, [])
  else if (← startsSentence st.nmeabuffer (m - 1)) then takeSentence (m - 1) r st
  else return (st, [])

/-- `threaden` over the results of its reads: `none` for a read that failed,
no characters for the end of the stream. The calls are listed read by read. -/
def threaden : List (Option (List UInt8)) → GuiState → Option (GuiState × List (List GuiCall))
  | [], st => some (st, [])
  | none :: reads, st => do
    let nmeabuffer ← wr st.nmeabuffer 0 0
    let (st, rest) ← threaden reads { st with nmeabuffer }
    return (st, [] :: rest)
  | some [] :: _, st => some (st, [])
  | some bytes :: reads, st => do
    let (st, calls) ← threadenRead bytes st
    let (st, rest) ← threaden reads st
    return (st, calls :: rest)

/-- What the calls of `aisdecode` left in `r_buffer`. -/
def decodes (calls : List GuiCall) : List RBuffer :=
  calls.filterMap fun
    | .aisdecode _ rBuffer => some rBuffer
    | .updateship _ => none

end Gnuais
