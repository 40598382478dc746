import Mathlib.Data.List.Basic
import Mathlib.Data.Int.Notation
import Mathlib.Order.Basic

/-!
# The decoder's data and its outgoing calls

The data model of `protodec.h`, and the vocabulary in which a run of the
decoder is observed.

* `DemodState` — `struct demod_state_t`. Counters are natural numbers, the
  five buffers are arrays of their allocated sizes, the two device pointers
  are kept as "is it non-NULL". Fields nothing here reads (`offset`,
  `tbuffer`, `best_range`) are left out.
* `Call` — a call that leaves the decoder (log, serial port, socket, database,
  cache, standard output), plus the decoder's own call of `protodec_getdata`.
  A run returns the list of its calls in order.
* `FloatExpr` — floating-point arguments stay expressions. Two values are
  equal when they are computed the same way from the same integers; rounding
  and the conversions between `float` and `double` are not modelled.
-/

namespace Gnuais

/-- `DEMOD_BUFFER_LEN` -/
abbrev demodBufferLen : ℕ := 450

/-- `SERBUFFER_LEN`, the size of both `serbuffer` and `nmea` -/
abbrev serbufferLen : ℕ := 100

/-- `IPCBUFFER_LEN` -/
abbrev ipcbufferLen : ℕ := 255

/-- `MAX_AIS_PACKET_TYPE` -/
abbrev maxAisPacketType : ℕ := 24

/-- A floating-point value, as the expression that computes it. -/
inductive FloatExpr where
  /-- `(float) i` -/
  | ofInt : ℤ → FloatExpr
  /-- the literal `n.0` -/
  | lit : ℕ → FloatExpr
  /-- the quotient of two `float`s -/
  | div : FloatExpr → FloatExpr → FloatExpr
  /-- the difference of two `float`s -/
  | sub : FloatExpr → FloatExpr → FloatExpr
  deriving DecidableEq, Repr

/-- A call of one of the six cache writers, with the arguments of `cache.c`. -/
inductive CacheCall where
  /-- `cache_position`: where a vessel or a station is and how it moves -/
  | position (receivedT : ℤ) (mmsi : Int32) (navstat : ℤ) (lat lon : FloatExpr) (hdg : ℤ)
      (course : FloatExpr) (rateofturn : ℤ) (sog : FloatExpr)
  /-- `cache_vesseldata`: the static data of type 5 -/
  | vesseldata (receivedT : ℤ) (mmsi : Int32) (imo : ℤ) (callsign name destination : List UInt8)
      (shiptype a b c d : ℤ) (draught : FloatExpr)
  /-- `cache_vesseldatab`: part B of type 24 -/
  | vesseldatab (receivedT : ℤ) (mmsi : Int32) (callsign : List UInt8) (shiptype a b c d : ℤ)
  /-- `cache_vesseldatabb`: the type and the dimensions of type 19 -/
  | vesseldatabb (receivedT : ℤ) (mmsi : Int32) (shiptype a b c d : ℤ)
  /-- `cache_vesselname`: a name alone, of type 19 or part A of type 24 -/
  | vesselname (receivedT : ℤ) (mmsi : Int32) (name destination : List UInt8)
  /-- `cache_vessel_persons`: how many are on board -/
  | vesselPersons (receivedT : ℤ) (mmsi : Int32) (personsOnBoard : ℤ)
  deriving DecidableEq, Repr

/-- What the decoder prints about a frame, one constructor per format. -/
inductive Report where
  /-- `ch %c type %d mmsi %09ld:` -/
  | frame (chanid : UInt8) (type mmsi : ℕ)
  /-- the line of types 1, 2, 3 and 18 -/
  | position (lat lon course sog : FloatExpr) (rateofturn navstat : ℤ) (heading : ℕ)
  /-- the line of type 4 -/
  | baseStation (year month day hour minute second : ℕ) (lat lon : FloatExpr)
  /-- the line of type 5 -/
  | vessel (name destination : List UInt8) (shiptype length width : ℕ) (draught : FloatExpr)
  /-- the head of type 6 -/
  | addressed (dstMmsi seq retransmitted appid appidDac appidFi : ℕ)
  /-- the lengths that types 7, 13 and 20 print in front of their records -/
  | ackHeader (bufferlen pos : ℕ)
  /-- one record of types 7 and 13 -/
  | ack (i dstMmsi seq : ℕ)
  /-- the head of type 8 -/
  | broadcast (appid appidDac appidFi : ℕ)
  /-- `(%s)` with the application's name -/
  | appid (name : String)
  /-- an application message with the number of persons -/
  | persons (peopleOnBoard : ℕ)
  /-- an application message with weather and water -/
  | weather (lat lon : FloatExpr) (windSpeed windGust windDir windGustDir : ℕ)
      (airTemp : FloatExpr) (relHumid : ℕ) (dewPoint : FloatExpr) (airPress airPressTend : ℕ)
      (horizVisib waterLevel waveHeight waterTemp : FloatExpr)
  /-- the line of type 19 -/
  | classB (name : List UInt8) (shiptype length width : ℕ)
  /-- one record of type 20 -/
  | reserve (i ofs slots timeout incr : ℕ)
  /-- part A of type 24 -/
  | vesselName (name : List UInt8)
  /-- part B of type 24 -/
  | vesselCallsign (callsign : List UInt8) (shiptype length width : ℕ)
  /-- ` (!%s)` with the last sentence -/
  | sentence (nmea : List UInt8)
  deriving DecidableEq, Repr

/-- A call made while bits are decoded. -/
inductive Call where
  /-- `protodec_getdata(bufferlen, d)`, with the `rbuffer` it is given -/
  | getdata (bufferlen : ℕ) (rbuffer : Vector UInt8 demodBufferLen)
  /-- `hlog(LOG_ERR, msg)` -/
  | hlog (msg : String)
  /-- `serial_write`, with the characters up to the terminator -/
  | serialWrite (s : List UInt8)
  /-- `ipc_write`, with the characters up to the terminator -/
  | ipcWrite (buffer : List UInt8)
  /-- a sentence for the database -/
  | myoutNmea (receivedT : ℤ) (nmea : List UInt8)
  /-- a position for the database -/
  | myoutAisPosition (receivedT : ℤ) (mmsi : ℕ) (lat lon hdg course sog : FloatExpr)
  /-- a base station for the database -/
  | myoutAisBasestation (receivedT : ℤ) (mmsi : ℕ) (lat lon : FloatExpr)
  /-- static data of type 5 for the database -/
  | myoutAisVesseldata (receivedT : ℤ) (mmsi : ℕ) (name destination : List UInt8)
      (draught : FloatExpr) (a b c d : ℕ)
  /-- dimensions for the database -/
  | myoutAisVesseldatab (receivedT : ℤ) (mmsi : ℕ) (a b c d : ℕ)
  /-- a name for the database -/
  | myoutAisVesselname (receivedT : ℤ) (mmsi : ℕ) (name destination : List UInt8)
  /-- one of the writers of the cache -/
  | cache (c : CacheCall)
  /-- `update_range`, for the distance of the farthest sender -/
  | updateRange (lat lon : FloatExpr)
  /-- a message for standard output -/
  | printf (r : Report)
  deriving DecidableEq

/-- The configuration the decoders consult. The source keeps it in globals (`my`,
`cache_positions`, `have_my_loc`, `skip_type`), which only the start of the program
writes, so a decoder is given it as an argument and never changes it. -/
structure Config where
  /-- there is a database -/
  my : Bool
  /-- there is a cache -/
  cachePositions : Bool
  /-- the configuration has a position of our own -/
  haveMyLoc : Bool
  /-- messages of this type are written out, and not decoded any further -/
  skipType : ℕ → Bool

/-- The configuration without a database, a cache and a position, in which no
message type is skipped. -/
def Config.silent : Config := ⟨false, false, false, fun _ => false⟩

/-- `d->state`. A decoder looks for a training sequence (`skurr`, noise), follows it to
its end (`preamble`), takes the start flag (`startsign`), stores the bits of the frame
(`data`) and closes it at the end flag (`stopsign`), from where it starts over. -/
inductive St where
  /-- no training sequence so far -/
  | skurr
  /-- inside a training sequence -/
  | preamble
  /-- inside the start flag -/
  | startsign
  /-- inside the frame -/
  | data
  /-- six ones in the frame: the next bit ends the flag -/
  | stopsign
  deriving DecidableEq, Repr

/-- `struct demod_state_t`, the state of one decoder.

The counters are `int` in the source and natural numbers here. None of them grows by more
than one a bit, so the two agree for as long as fewer than 2^31 bits have come. -/
structure DemodState where
  /-- the channel, `A` or `B` -/
  chanid : UInt8
  /-- what the decoder waits for -/
  state : St
  /-- counts the bits in state `skurr` -/
  nskurr : ℕ
  /-- counts the bits in state `preamble` -/
  npreamble : ℕ
  /-- how far the start flag has come -/
  nstartsign : ℕ
  /-- counts the bits in state `data` -/
  ndata : ℕ
  /-- set by the resets only -/
  nstopsign : ℕ
  /-- pairs of equal neighbouring ones seen in a row -/
  antallenner : ℕ
  /-- the bits of the frame as they come, one a byte, frame check included -/
  buffer : Vector UInt8 demodBufferLen
  /-- the bits of the frame as they are read, each octet with its highest bit first -/
  rbuffer : Vector UInt8 demodBufferLen
  /-- how many bits are stored in `buffer` -/
  bufferpos : ℕ
  /-- the bit before -/
  last : Bool
  /-- alternations seen in a row -/
  antallpreamble : ℕ
  /-- five ones were stored, so the next bit is no bit of the frame -/
  bitstuff : ℕ
  /-- frames whose check was right -/
  receivedframes : ℕ
  /-- frames whose check was wrong -/
  lostframes : ℕ
  /-- frames that were too short, or whose flag was broken -/
  lostframes2 : ℕ
  /-- the number that ties the sentences of the next long message together -/
  seqnr : UInt8
  /-- `d->serial` is not NULL -/
  serial : Bool
  /-- `d->ipc` is not NULL -/
  ipc : Bool
  /-- the sentence that goes to the serial port -/
  serbuffer : Vector UInt8 serbufferLen
  /-- the sentence that goes to the socket -/
  ipcbuffer : Vector UInt8 ipcbufferLen
  /-- the last sentence, without its first character -/
  nmea : Vector UInt8 serbufferLen

/-- The five freshly allocated buffers. `protodec_initialize` does not clear them, so
their contents are whatever the allocator left there, and every theorem about a run is for
all such contents. -/
structure Allocated where
  /-- the five arrays, as `hmalloc` left them -/
  buffer : Vector UInt8 demodBufferLen
  rbuffer : Vector UInt8 demodBufferLen
  serbuffer : Vector UInt8 serbufferLen
  ipcbuffer : Vector UInt8 ipcbufferLen
  nmea : Vector UInt8 serbufferLen

/-- Zeroed memory. -/
def Allocated.zeroed : Allocated :=
  ⟨Vector.replicate _ 0, Vector.replicate _ 0, Vector.replicate _ 0, Vector.replicate _ 0,
    Vector.replicate _ 0⟩

/-- `protodec_reset`: back to looking for a training sequence. The sequence number, the
counts of frames and the buffers stay. -/
def protodecReset (d : DemodState) : DemodState :=
  { d with
    state := .skurr
    nskurr := 0
    ndata := 0
    npreamble := 0
    nstartsign := 0
    nstopsign := 0
    antallpreamble := 0
    antallenner := 0
    last := false
    bitstuff := 0
    bufferpos := 0 }

/-- `protodec_initialize`, given the memory the allocator hands out. All counters start at
0. -/
def protodecInitialize (mem : Allocated) (serial ipc : Bool) (chanid : UInt8) : DemodState where
  chanid := chanid
  state := .skurr
  nskurr := 0
  npreamble := 0
  nstartsign := 0
  ndata := 0
  nstopsign := 0
  antallenner := 0
  buffer := mem.buffer
  rbuffer := mem.rbuffer
  bufferpos := 0
  last := false
  antallpreamble := 0
  bitstuff := 0
  receivedframes := 0
  lostframes := 0
  lostframes2 := 0
  seqnr := 0
  serial := serial
  ipc := ipc
  serbuffer := mem.serbuffer
  ipcbuffer := mem.ipcbuffer
  nmea := mem.nmea

/-- The arguments of the `protodec_getdata` calls in a list of calls. -/
def getdataCalls (calls : List Call) : List (ℕ × Vector UInt8 demodBufferLen) :=
  calls.filterMap fun
    | .getdata bufferlen rbuffer => some (bufferlen, rbuffer)
    | _ => none

/-- The strings passed to `ipc_write` in a list of calls. -/
def ipcWrites (calls : List Call) : List (List UInt8) :=
  calls.filterMap fun
    | .ipcWrite s => some s
    | _ => none

theorem getdataCalls_append (cs cs' : List Call) :
    getdataCalls (cs ++ cs') = getdataCalls cs ++ getdataCalls cs' := List.filterMap_append

theorem ipcWrites_append (cs cs' : List Call) :
    ipcWrites (cs ++ cs') = ipcWrites cs ++ ipcWrites cs' := List.filterMap_append

end Gnuais
