import Gnuais.Demod
import Gnuais.Splay

/-!
# The cache of vessels (`cache.c`)

One entry for each MMSI, found through a splay tree whose blocks point at the
entries. Six calls write entries; `cacheRotate` hands the tree out and starts an
empty one.

* `CacheEnt` — `struct cache_ent`. A string is `NULL` or its bytes.
* `CacheState` — the memory of the splay trees, the entries in it, and
  `cache_spt`. Every call runs under `cache_spt_mut`, so a call is one step.
* `cacheScan` — what a walk over a tree with `sp_fhead` and `sp_fnext` reads.

A read through a pointer to something that is no entry is `none`.
-/

namespace Gnuais

/-- `struct cache_ent` -/
structure CacheEnt where
  /-- written by every call; the key of the tree is its bit pattern -/
  mmsi : Int32
  /-- `received_pos`, the time of the last position; 0 means that there was none -/
  receivedPos : ℤ
  /-- in degrees, as are the longitude, the heading and the course -/
  lat : FloatExpr
  lon : FloatExpr
  /-- -1 for a heading that was not received, as for the fields below -/
  hdg : ℤ
  course : FloatExpr
  /-- `sog`, the speed over ground in knots -/
  sog : FloatExpr
  /-- the navigational status; type 18 reports always write 15 -/
  navstat : ℤ
  /-- `received_data`, the time of the last static report -/
  receivedData : ℤ
  /-- -1 if none was received; the class B calls write 0 here -/
  imo : ℤ
  /-- `NULL` until a report names it, as are the name and the destination -/
  callsign : Option (List UInt8)
  name : Option (List UInt8)
  destination : Option (List UInt8)
  shiptype : ℤ
  /-- `A` to `D`, the distances in metres from the aerial to the bow, the stern and the
  two sides -/
  a : ℤ
  b : ℤ
  c : ℤ
  d : ℤ
  /-- in metres; 0 both for "not received" and in the class B calls -/
  draught : FloatExpr
  /-- `received_persons_on_board`, the time of the last such report -/
  receivedPersonsOnBoard : ℤ
  /-- `persons_on_board`, -1 if not received -/
  personsOnBoard : ℤ
  deriving DecidableEq, Repr

/-- The memory, the entries by address, and `cache_spt`. The entries are kept apart from
the blocks, as they are in the source: a block has the address of its entry only. -/
structure CacheState where
  /-- the blocks of all trees and the allocator, which also hands out the entries'
  addresses -/
  mem : Memory
  /-- the entries; an address without one is none -/
  ents : Ptr → Option CacheEnt
  /-- `cache_spt`, the tree that is filled at present -/
  spt : Sptree

/-- `cache_init`, in a memory where `sp_free_list` is `NULL` as the program
starts with it. -/
def cacheInit (mem : Memory) : CacheState where
  mem := { mem with freeList := none }
  ents := fun _ => none
  spt := spInit

/-- `cache_rotate`: the tree it returns. -/
def cacheRotate (s : CacheState) : Sptree × CacheState := (s.spt, { s with spt := spInit })

/-! ## Entries

An entry is made the first time its MMSI is looked up, and only then. Every writer goes
through `cache_get`, so what an entry starts with is said once, in `cacheEntInit`. -/

/-- The entry `cache_get` makes: zeroed, and then the fields that have a value for "not
received". Where no value can stand for "not received", a field starts at zero; this is so
for the position and the draught. -/
def cacheEntInit : CacheEnt where
  mmsi := 0
  receivedPos := 0
  lat := .ofInt 0
  lon := .ofInt 0
  hdg := -1
  course := .ofInt (-1)
  sog := .ofInt (-1)
  navstat := -1
  receivedData := 0
  imo := -1
  callsign := none
  name := none
  destination := none
  shiptype := -1
  a := -1
  b := -1
  c := -1
  d := -1
  draught := .ofInt 0
  receivedPersonsOnBoard := 0
  personsOnBoard := -1

/-- `cache_get`: the address of the entry. The key is looked up twice for a new ship, here
and in `sp_install`, and is not there either time. -/
def cacheGet (mmsi : Int32) (s : CacheState) : Option (Ptr × CacheState) := do
  let (spl, q, m) ← spLookup mmsi.toUInt32 s.spt s.mem
  match spl with
  | some spl =>
    let e ← m.data spl
    return (e, { s with mem := m, spt := q })
  | none =>
    -- new ship
    let (spl, q, m) ← spInstall mmsi.toUInt32 q m
    let (e, m) := hmalloc m
    return (e, {
      mem := { m with data := fun p => if p = spl then some e else m.data p }
      ents := fun p => if p = e then some cacheEntInit else s.ents p
      spt := q })

/-- A call of the cache: `cache_get`, and then stores to the entry. All six functions have
this form, so what is known of it is known of all of them. -/
def cacheWrite (mmsi : Int32) (store : CacheEnt → CacheEnt) (s : CacheState) :
    Option CacheState := do
  let (e, s) ← cacheGet mmsi s
  let ent ← s.ents e
  return { s with ents := fun p => if p = e then some (store ent) else s.ents p }

/-- `if (!e->name || strcmp(e->name, name) != 0) e->name = hstrdup(name);`, as for the two
other strings. Memory that is not used any more is not part of the model, so the old
string is just dropped. -/
def hstrdupNew (old : Option (List UInt8)) (new : List UInt8) : Option (List UInt8) :=
  match old with
  | none => some new
  | some s => if s ≠ new then some new else some s

/-- The comparison only saves a copy: the string is the new one either way. -/
@[simp] theorem hstrdupNew_eq (old : Option (List UInt8)) (new : List UInt8) :
    hstrdupNew old new = some new := by
  cases old with
  | none => rfl
  | some s =>
    rw [hstrdupNew]
    split
    · rfl
    · rename_i heq
      rw [not_not.mp heq]

/-! ## The six calls

Each call writes the fields that its kind of report has and leaves the others as they are.
Two of them write values that no report carries: the class B calls have neither an IMO
number nor a draught, and put 0 in their place. -/

/-- `cache_position` -/
def cachePosition (receivedT : ℤ) (mmsi : Int32) (navstat : ℤ) (lat lon : FloatExpr) (hdg : ℤ)
    (course : FloatExpr) (_rateofturn : ℤ) (sog : FloatExpr) : CacheState → Option CacheState :=
  cacheWrite mmsi fun e => { e with
    mmsi := mmsi
    receivedPos := receivedT
    lat := lat
    lon := lon
    hdg := hdg
    course := course
    sog := sog
    navstat := navstat }

/-- `cache_vesseldata` -/
def cacheVesseldata (receivedT : ℤ) (mmsi : Int32) (imo : ℤ)
    (callsign name destination : List UInt8) (shiptype a b c d : ℤ) (draught : FloatExpr) :
    CacheState → Option CacheState :=
  cacheWrite mmsi fun e => { e with
    mmsi := mmsi
    imo := imo
    receivedData := receivedT
    callsign := hstrdupNew e.callsign callsign
    name := hstrdupNew e.name name
    destination := hstrdupNew e.destination destination
    shiptype := shiptype
    a := a
    b := b
    c := c
    d := d
    draught := draught }

/-- `cache_vesseldatab` -/
def cacheVesseldatab (receivedT : ℤ) (mmsi : Int32) (callsign : List UInt8)
    (shiptype a b c d : ℤ) : CacheState → Option CacheState :=
  cacheWrite mmsi fun e => { e with
    mmsi := mmsi
    imo := 0
    receivedData := receivedT
    callsign := hstrdupNew e.callsign callsign
    shiptype := shiptype
    a := a
    b := b
    c := c
    d := d
    draught := .ofInt 0 }

/-- `cache_vesseldatabb` -/
def cacheVesseldatabb (receivedT : ℤ) (mmsi : Int32) (shiptype a b c d : ℤ) :
    CacheState → Option CacheState :=
  cacheWrite mmsi fun e => { e with
    mmsi := mmsi
    imo := 0
    receivedData := receivedT
    shiptype := shiptype
    a := a
    b := b
    c := c
    d := d
    draught := .ofInt 0 }

/-- `cache_vesselname` -/
def cacheVesselname (receivedT : ℤ) (mmsi : Int32) (name destination : List UInt8) :
    CacheState → Option CacheState :=
  cacheWrite mmsi fun e => { e with
    mmsi := mmsi
    receivedData := receivedT
    name := hstrdupNew e.name name
    destination := hstrdupNew e.destination destination }

/-- `cache_vessel_persons` -/
def cacheVesselPersons (receivedT : ℤ) (mmsi : Int32) (personsOnBoard : ℤ) :
    CacheState → Option CacheState :=
  cacheWrite mmsi fun e => { e with
    mmsi := mmsi
    receivedPersonsOnBoard := receivedT
    personsOnBoard := personsOnBoard }

/-- The function a call is of. -/
def cacheUpdate : CacheCall → CacheState → Option CacheState
  | .position receivedT mmsi navstat lat lon hdg course rateofturn sog =>
    cachePosition receivedT mmsi navstat lat lon hdg course rateofturn sog
  | .vesseldata receivedT mmsi imo callsign name destination shiptype a b c d draught =>
    cacheVesseldata receivedT mmsi imo callsign name destination shiptype a b c d draught
  | .vesseldatab receivedT mmsi callsign shiptype a b c d =>
    cacheVesseldatab receivedT mmsi callsign shiptype a b c d
  | .vesseldatabb receivedT mmsi shiptype a b c d =>
    cacheVesseldatabb receivedT mmsi shiptype a b c d
  | .vesselname receivedT mmsi name destination => cacheVesselname receivedT mmsi name destination
  | .vesselPersons receivedT mmsi personsOnBoard =>
    cacheVesselPersons receivedT mmsi personsOnBoard

/-! ## Runs and scans

The decoders call the six functions in any order, and the export threads rotate the tree
whenever their interval is over. A run is the sequence in which the calls get the mutex. -/

/-- What a program does with the cache. -/
inductive CacheOp where
  /-- one of the six calls -/
  | update (c : CacheCall)
  /-- `cache_rotate`, as the export threads call it -/
  | rotate
  deriving DecidableEq, Repr

/-- The cache, and the trees `cache_rotate` returned, in order. -/
structure CacheRun where
  /-- the cache as it is now -/
  cache : CacheState
  /-- the trees that were handed out, which nothing fills any more -/
  returned : List Sptree

/-- One operation. A call leaves the trees alone that were returned before. -/
def cacheStep (r : CacheRun) : CacheOp → Option CacheRun
  | .update c => do
    let s ← cacheUpdate c r.cache
    return { r with cache := s }
  | .rotate =>
    let (q, s) := cacheRotate r.cache
    some { cache := s, returned := r.returned ++ [q] }

/-- The calls in the order in which they get the mutex, after `cache_init`. -/
def cacheRun (mem : Memory) (ops : List CacheOp) : Option CacheRun :=
  ops.foldlM cacheStep { cache := cacheInit mem, returned := [] }

/-- `*(struct cache_ent *)x->data` -/
def CacheState.ent (s : CacheState) (x : Ptr) : Option CacheEnt := do
  let e ← s.mem.data x
  s.ents e

/-- The keys and entries of a tree, in the order a walk visits them. -/
def cacheScan (q : Sptree) (s : CacheState) : Option (List (SpKey × CacheEnt)) := do
  (← spScan q s.mem).mapM fun x => do
    let e ← s.ent x
    return (s.mem.key x, e)

end Gnuais
