import Gnuais.CacheEntries
import Gnuais.Lib.Records

/-!
# The cache as a map with rotation

What the cache is for, without trees and pointers: `CacheMap` is a map from MMSI
to entry, and rotation puts the map aside and starts an empty one.
`cacheRun_refines` says that the cache with all its trees behaves like it.

`CacheField` names the fields of an entry, and `CacheCall.gives` lists the fields
a call writes with the values it gives them. So the map of an interval can be
said from its calls alone (`cache_refines`): the entry of an MMSI holds, in every
field, what the last call for that MMSI that writes the field gave.
-/

namespace Gnuais

open LinkTree

/-! ## Fields

To say what a field of an entry holds, for all fields at once, the fields need names.
`CacheField α` is the fields of type `α`, so a statement about every field is a statement
about every `f : CacheField α`, and none can be forgotten in it. -/

/-- The fields of `struct cache_ent`, by their types. -/
inductive CacheField : Type → Type where
  /-- the fields of `struct cache_ent` in its order, each with its type -/
  | mmsi : CacheField Int32
  | receivedPos : CacheField ℤ
  | lat : CacheField FloatExpr
  | lon : CacheField FloatExpr
  | hdg : CacheField ℤ
  | course : CacheField FloatExpr
  | sog : CacheField FloatExpr
  | navstat : CacheField ℤ
  | receivedData : CacheField ℤ
  | imo : CacheField ℤ
  | callsign : CacheField (Option (List UInt8))
  | name : CacheField (Option (List UInt8))
  | destination : CacheField (Option (List UInt8))
  | shiptype : CacheField ℤ
  | a : CacheField ℤ
  | b : CacheField ℤ
  | c : CacheField ℤ
  | d : CacheField ℤ
  | draught : CacheField FloatExpr
  | receivedPersonsOnBoard : CacheField ℤ
  | personsOnBoard : CacheField ℤ

/-- The value of the field. -/
def CacheField.get {α : Type} : CacheField α → CacheEnt → α
  | .mmsi, e => e.mmsi
  | .receivedPos, e => e.receivedPos
  | .lat, e => e.lat
  | .lon, e => e.lon
  | .hdg, e => e.hdg
  | .course, e => e.course
  | .sog, e => e.sog
  | .navstat, e => e.navstat
  | .receivedData, e => e.receivedData
  | .imo, e => e.imo
  | .callsign, e => e.callsign
  | .name, e => e.name
  | .destination, e => e.destination
  | .shiptype, e => e.shiptype
  | .a, e => e.a
  | .b, e => e.b
  | .c, e => e.c
  | .d, e => e.d
  | .draught, e => e.draught
  | .receivedPersonsOnBoard, e => e.receivedPersonsOnBoard
  | .personsOnBoard, e => e.personsOnBoard

/-- The MMSI a call is about. -/
def CacheCall.mmsi : CacheCall → Int32
  | .position _ mmsi _ _ _ _ _ _ _ => mmsi
  | .vesseldata _ mmsi _ _ _ _ _ _ _ _ _ _ => mmsi
  | .vesseldatab _ mmsi _ _ _ _ _ _ => mmsi
  | .vesseldatabb _ mmsi _ _ _ _ _ => mmsi
  | .vesselname _ mmsi _ _ => mmsi
  | .vesselPersons _ mmsi _ => mmsi

/-- The value a call gives to a field, or none if it leaves the field alone. It is none
for the fields a call does not have. A call that gives a field gives it the same value
whatever the entry held. -/
def CacheCall.gives {α : Type} (call : CacheCall) (f : CacheField α) : Option α :=
  match call with
  | .position receivedT mmsi navstat lat lon hdg course _ sog =>
    match f with
    | .mmsi => some mmsi
    | .receivedPos => some receivedT
    | .lat => some lat
    | .lon => some lon
    | .hdg => some hdg
    | .course => some course
    | .sog => some sog
    | .navstat => some navstat
    | _ => none
  | .vesseldata receivedT mmsi imo callsign name destination shiptype a b c d draught =>
    match f with
    | .mmsi => some mmsi
    | .imo => some imo
    | .receivedData => some receivedT
    | .callsign => some (some callsign)
    | .name => some (some name)
    | .destination => some (some destination)
    | .shiptype => some shiptype
    | .a => some a
    | .b => some b
    | .c => some c
    | .d => some d
    | .draught => some draught
    | _ => none
  | .vesseldatab receivedT mmsi callsign shiptype a b c d =>
    match f with
    | .mmsi => some mmsi
    | .imo => some 0
    | .receivedData => some receivedT
    | .callsign => some (some callsign)
    | .shiptype => some shiptype
    | .a => some a
    | .b => some b
    | .c => some c
    | .d => some d
    | .draught => some (.ofInt 0)
    | _ => none
  | .vesseldatabb receivedT mmsi shiptype a b c d =>
    match f with
    | .mmsi => some mmsi
    | .imo => some 0
    | .receivedData => some receivedT
    | .shiptype => some shiptype
    | .a => some a
    | .b => some b
    | .c => some c
    | .d => some d
    | .draught => some (.ofInt 0)
    | _ => none
  | .vesselname receivedT mmsi name destination =>
    match f with
    | .mmsi => some mmsi
    | .receivedData => some receivedT
    | .name => some (some name)
    | .destination => some (some destination)
    | _ => none
  | .vesselPersons receivedT mmsi personsOnBoard =>
    match f with
    | .mmsi => some mmsi
    | .receivedPersonsOnBoard => some receivedT
    | .personsOnBoard => some personsOnBoard
    | _ => none

/-- An entry with the fields that a call writes changed. -/
def CacheCall.write (call : CacheCall) (e : CacheEnt) : CacheEnt where
  mmsi := (call.gives .mmsi).getD e.mmsi
  receivedPos := (call.gives .receivedPos).getD e.receivedPos
  lat := (call.gives .lat).getD e.lat
  lon := (call.gives .lon).getD e.lon
  hdg := (call.gives .hdg).getD e.hdg
  course := (call.gives .course).getD e.course
  sog := (call.gives .sog).getD e.sog
  navstat := (call.gives .navstat).getD e.navstat
  receivedData := (call.gives .receivedData).getD e.receivedData
  imo := (call.gives .imo).getD e.imo
  callsign := (call.gives .callsign).getD e.callsign
  name := (call.gives .name).getD e.name
  destination := (call.gives .destination).getD e.destination
  shiptype := (call.gives .shiptype).getD e.shiptype
  a := (call.gives .a).getD e.a
  b := (call.gives .b).getD e.b
  c := (call.gives .c).getD e.c
  d := (call.gives .d).getD e.d
  draught := (call.gives .draught).getD e.draught
  receivedPersonsOnBoard := (call.gives .receivedPersonsOnBoard).getD e.receivedPersonsOnBoard
  personsOnBoard := (call.gives .personsOnBoard).getD e.personsOnBoard

/-- A field after a call is what the call gives to it, or what it was. -/
theorem CacheField.get_write {α : Type} (f : CacheField α) (call : CacheCall) (e : CacheEnt) :
    f.get (call.write e) = (call.gives f).getD (f.get e) := by
  cases f <;> rfl

/-- Each of the six functions writes the fields listed for it. -/
theorem cacheUpdate_eq (call : CacheCall) :
    cacheUpdate call = cacheWrite call.mmsi call.write := by
  cases call with
  | position => rfl
  | vesseldata =>
    simp only [cacheUpdate, cacheVesseldata, hstrdupNew_eq]
    rfl
  | vesseldatab =>
    simp only [cacheUpdate, cacheVesseldatab, hstrdupNew_eq]
    rfl
  | vesseldatabb => rfl
  | vesselname =>
    simp only [cacheUpdate, cacheVesselname, hstrdupNew_eq]
    rfl
  | vesselPersons => rfl

/-! ## The map with rotation

This is the specification: a map, an update at one key, and a rotation that starts with an
empty map again. It has no trees, no pointers and no mutex, and nothing about it can fail. -/

/-- `(spkey_t) mmsi` -/
def CacheCall.key (call : CacheCall) : SpKey := call.mmsi.toUInt32

/-- The map, and the maps put aside so far, in order. -/
structure CacheMap where
  /-- the map that calls write to -/
  current : EntMap
  /-- the maps that were put aside, which nothing writes to -/
  returned : List EntMap

/-- One operation on the map. A key that is new starts from the first entry. -/
def CacheMap.step (c : CacheMap) : CacheOp → CacheMap
  | .update call =>
    { c with current := Records.update CacheCall.key CacheCall.write cacheEntInit c.current call }
  | .rotate => { current := fun _ => none, returned := c.returned ++ [c.current] }

/-- A run from the empty map. -/
def CacheMap.run (ops : List CacheOp) : CacheMap :=
  ops.foldl CacheMap.step { current := fun _ => none, returned := [] }

/-- A run that is longer by one operation. -/
theorem CacheMap.run_concat (ops : List CacheOp) (op : CacheOp) :
    run (ops ++ [op]) = (run ops).step op :=
  List.foldl_append

/-- The trees of a run stand for the maps: the current tree for the current map, and each
tree handed out for the map put aside at that time. The maps are compared through `Shows`,
one tree at a time, and the trees share one memory. -/
def Refines (r : CacheRun) (c : CacheMap) : Prop :=
  ∃ t rest free, CacheInv r.cache ((r.cache.spt, t) :: rest) free ∧
    Shows r.cache t c.current ∧ rest.map Prod.fst = r.returned ∧
    List.Forall₂ (fun x map => Shows r.cache x.2 map) rest c.returned

/-- Trees that nothing was stored to stand for what they stood for, all of them. -/
theorem shows_all_same {s s' : CacheState} {rest : List (Sptree × NodeTree Ptr)} {maps : List EntMap}
    (hshows : List.Forall₂ (fun x map => Shows s x.2 map) rest maps)
    (hsame : SameEnts s s' (treeNodes rest)) :
    List.Forall₂ (fun x map => Shows s' x.2 map) rest maps := by
  induction hshows with
  | nil => exact .nil
  | cons hx _ ih =>
    rw [treeNodes_cons] at hsame
    exact .cons (hx.same rfl fun p hp => hsame p (List.mem_append_left _ hp))
      (ih fun p hp => hsame p (List.mem_append_right _ hp))

/-- The trees in another order. -/
theorem CacheInv.perm {s : CacheState} {trees trees' : List (Sptree × NodeTree Ptr)} {free : List Ptr}
    (hinv : CacheInv s trees free) (hperm : trees.Perm trees') : CacheInv s trees' free := by
  have hnodes : (treeNodes trees).Perm (treeNodes trees') := hperm.flatMap_right _
  refine ⟨⟨fun x hx => hinv.forest.isTree x (hperm.mem_iff.mpr hx),
    fun x hx => hinv.forest.sorted x (hperm.mem_iff.mpr hx), hinv.forest.chain,
    (hnodes.append_right free).nodup_iff.mp hinv.forest.distinct,
    fun p hp => hinv.forest.below p ((hnodes.append_right free).mem_iff.mpr hp)⟩,
    fun p hp => hinv.entry p (hnodes.mem_iff.mpr hp),
    fun p hp p' hp' => hinv.own p (hnodes.mem_iff.mpr hp) p' (hnodes.mem_iff.mpr hp')⟩

/-- The tree that is handed out moves behind the others, and an empty one takes
its place. -/
theorem CacheInv.rotate {s : CacheState} {t : NodeTree Ptr} {rest : List (Sptree × NodeTree Ptr)}
    {free : List Ptr} (hinv : CacheInv s ((s.spt, t) :: rest) free) :
    CacheInv { s with spt := spInit } ((spInit, .leaf) :: (rest ++ [(s.spt, t)])) free := by
  have hmoved := hinv.perm (List.perm_append_singleton _ _).symm
  refine ⟨forest_cons.mpr ⟨⟨rfl, fun _ hc => (nomatch hc), List.nodup_nil⟩, .nil, ?_, ?_,
    hmoved.forest⟩, hmoved.entry, hmoved.own⟩
  · exact fun p hp => absurd hp List.not_mem_nil
  · exact fun p hp => absurd hp List.not_mem_nil

/-- One operation on the cache is one on the map. A call is a write to one tree, and a
rotation is a new tree in front of the others. -/
theorem cacheStep_refines {r : CacheRun} {c : CacheMap} (hr : Refines r c) (op : CacheOp) :
    ∃ r', cacheStep r op = some r' ∧ Refines r' (c.step op) := by
  obtain ⟨t, rest, free, hinv, hcurrent, hhandles, hreturned⟩ := hr
  cases op with
  | update call =>
    obtain ⟨s', t', free', hwrite, hinv', hcurrent', hsame⟩ :=
      cacheWrite_spec hinv hcurrent call.mmsi call.write
    refine ⟨{ r with cache := s' }, ?_, t', rest, free', hinv', hcurrent', hhandles,
      shows_all_same hreturned hsame⟩
    rw [cacheStep, cacheUpdate_eq, hwrite]
    rfl
  | rotate =>
    have hall : List.Forall₂ (fun x map => Shows r.cache x.2 map) (rest ++ [(r.cache.spt, t)])
        (c.returned ++ [c.current]) :=
      List.rel_append hreturned (.cons hcurrent .nil)
    refine ⟨_, rfl, .leaf, rest ++ [(r.cache.spt, t)], free, hinv.rotate, shows_spInit, ?_,
      shows_all_same hall fun _ _ => ⟨rfl, rfl⟩⟩
    rw [List.map_append, hhandles]
    rfl

/-- The cache starts with one empty tree, and the map empty. -/
theorem cacheInit_refines (mem : Memory) :
    Refines { cache := cacheInit mem, returned := [] } { current := fun _ => none, returned := [] } := by
  refine ⟨.leaf, [], [], ⟨⟨?_, ?_, rfl, List.nodup_nil, ?_⟩, ?_, ?_⟩, shows_spInit, rfl, .nil⟩
  · intro x hx
    rw [List.mem_singleton.mp hx]
    exact ⟨rfl, fun _ hc => (nomatch hc), List.nodup_nil⟩
  · intro x hx
    rw [List.mem_singleton.mp hx]
    exact List.Pairwise.nil
  · exact fun p hp => absurd hp List.not_mem_nil
  · exact fun p hp => absurd hp List.not_mem_nil
  · exact fun p hp => absurd hp List.not_mem_nil

/-- A run of the cache that is longer by one operation. -/
theorem cacheRun_concat {mem : Memory} {ops : List CacheOp} {op : CacheOp} {r : CacheRun}
    (hrun : cacheRun mem ops = some r) : cacheRun mem (ops ++ [op]) = cacheStep r op := by
  rw [cacheRun] at hrun
  rw [cacheRun, List.foldlM_append, hrun]
  simp only [Option.bind_eq_bind, Option.bind_some, List.foldlM_cons, List.foldlM_nil]
  exact Option.bind_fun_some _

/-- No run fails, and the cache behaves like the map throughout. -/
theorem cacheRun_refines (mem : Memory) (ops : List CacheOp) :
    ∃ r, cacheRun mem ops = some r ∧ Refines r (CacheMap.run ops) := by
  induction ops using List.reverseRecOn with
  | nil => exact ⟨_, rfl, cacheInit_refines mem⟩
  | append_singleton ops op ih =>
    obtain ⟨r, hrun, hr⟩ := ih
    obtain ⟨r', hstep, hr'⟩ := cacheStep_refines hr op
    refine ⟨r', ?_, ?_⟩
    · rw [cacheRun_concat hrun, hstep]
    · rw [CacheMap.run_concat]
      exact hr'

/-! ## Intervals

A rotation ends an interval. What an export writes comes from one interval, so the entries
are said here from the calls of the interval and nothing else: neither the calls before it
nor those after it matter. -/

/-- The calls between one rotation and the next, interval by interval, and the
calls since the last rotation. -/
structure Intervals where
  /-- the intervals that a rotation ended, in order -/
  closed : List (List CacheCall)
  /-- the calls since then -/
  current : List CacheCall

/-- A call belongs to the interval that is open. -/
def Intervals.step (i : Intervals) : CacheOp → Intervals
  | .update call => { i with current := i.current ++ [call] }
  | .rotate => { closed := i.closed ++ [i.current], current := [] }

/-- The intervals of a run. -/
def intervals (ops : List CacheOp) : Intervals :=
  ops.foldl Intervals.step { closed := [], current := [] }

/-- The intervals of a run that is longer by one operation. -/
theorem intervals_concat (ops : List CacheOp) (op : CacheOp) :
    intervals (ops ++ [op]) = (intervals ops).step op :=
  List.foldl_append

/-- The map of some calls. -/
def entMapOf (calls : List CacheCall) : EntMap :=
  Records.replay CacheCall.key CacheCall.write cacheEntInit calls

/-- Each map is that of the calls of its interval. -/
theorem run_intervals (ops : List CacheOp) :
    CacheMap.run ops =
      { current := entMapOf (intervals ops).current
        returned := (intervals ops).closed.map entMapOf } := by
  induction ops using List.reverseRecOn with
  | nil => rfl
  | append_singleton ops op ih =>
    rw [CacheMap.run_concat, intervals_concat, ih]
    cases op with
    | update call => simp only [CacheMap.step, Intervals.step, entMapOf, Records.replay_concat]
    | rotate =>
      rw [CacheMap.step, Intervals.step, List.map_append]
      rfl

/-- What a scan has to give for the calls of one interval: the keys of the MMSIs that were
updated and no others, in strictly ascending order, each with the entry that holds in
every field what the last call for the MMSI that writes the field gave, or the value of a
first entry if no call did. So the entries are determined by the calls, and two scans of
one tree give the same. -/
structure Snapshot (calls : List CacheCall) (entries : List (SpKey × CacheEnt)) : Prop where
  /-- no key comes twice, and the export is sorted -/
  ascending : (entries.map Prod.fst).Pairwise (· < ·)
  /-- the keys are those of the MMSIs of the calls -/
  keys : ∀ k, k ∈ entries.map Prod.fst ↔ ∃ call ∈ calls, call.mmsi.toUInt32 = k
  /-- the last call that writes the field decides; without one the field is as it started -/
  fields : ∀ mmsi : Int32, ∀ e, (mmsi.toUInt32, e) ∈ entries → ∀ (α : Type) (f : CacheField α),
    f.get e = Records.lastWrite (fun call => call.gives f) (f.get cacheEntInit)
      (calls.filter fun call => call.mmsi = mmsi)

/-- Different MMSIs have different keys. -/
theorem toUInt32_inj {x y : Int32} (h : x.toUInt32 = y.toUInt32) : x = y := by
  cases x
  cases y
  exact congrArg _ h

/-- An entry, from the calls for its MMSI. -/
theorem entMapOf_eq (calls : List CacheCall) (mmsi : Int32) :
    entMapOf calls mmsi.toUInt32 =
      if ∃ call ∈ calls, call.mmsi = mmsi then
        some ((calls.filter fun call => call.mmsi = mmsi).foldl (fun e call => call.write e)
          cacheEntInit)
      else none := by
  have hkey : ∀ call : CacheCall, call.key = mmsi.toUInt32 ↔ call.mmsi = mmsi := fun call =>
    ⟨toUInt32_inj, congrArg _⟩
  rw [entMapOf, Records.replay_eq]
  simp only [hkey]

/-- Entries in ascending order that are those of the calls' map. -/
theorem snapshot_of_map {calls : List CacheCall} {entries : List (SpKey × CacheEnt)}
    (hsorted : (entries.map Prod.fst).Pairwise (· < ·))
    (hmem : ∀ k e, (k, e) ∈ entries ↔ entMapOf calls k = some e) : Snapshot calls entries where
  ascending := hsorted
  keys k := by
    have hex : k ∈ entries.map Prod.fst ↔ (entMapOf calls k).isSome := by
      rw [List.mem_map, Option.isSome_iff_exists]
      exact ⟨fun ⟨x, hx, hk⟩ => ⟨x.2, (hmem k x.2).mp (hk ▸ hx)⟩,
        fun ⟨e, he⟩ => ⟨(k, e), (hmem k e).mpr he, rfl⟩⟩
    rw [hex, entMapOf, Records.replay_eq]
    split
    · rename_i hcall
      exact iff_of_true rfl hcall
    · rename_i hcall
      exact iff_of_false Bool.false_ne_true hcall
  fields mmsi e he α f := by
    have hent := (hmem _ _).mp he
    rw [entMapOf_eq] at hent
    split at hent
    · rw [← Option.some.inj hent]
      exact Records.foldl_lastWrite (fun call ent => f.get_write call ent) _ _
    · cases hent

/-- Trees that stand for the maps of some intervals show the intervals' calls. -/
theorem scan_snapshots {s : CacheState} {trees rest : List (Sptree × NodeTree Ptr)} {free : List Ptr}
    {closed : List (List CacheCall)} (hinv : CacheInv s trees free) (hsub : rest ⊆ trees)
    (hshows : List.Forall₂ (fun x calls => Shows s x.2 (entMapOf calls)) rest closed) :
    List.Forall₂ (fun calls q => ∃ entries, cacheScan q s = some entries ∧
      Snapshot calls entries) closed (rest.map Prod.fst) := by
  induction hshows with
  | nil => exact .nil
  | cons hx _ ih =>
    obtain ⟨entries, hscan, hsorted, hmem⟩ :=
      cacheScan_spec hinv (hsub (List.mem_cons_self ..)) hx
    exact .cons ⟨entries, hscan, snapshot_of_map hsorted hmem⟩
      (ih fun y hy => hsub (List.mem_cons_of_mem _ hy))

/-- In every run of calls and rotations no call fails, and every tree returned by a
rotation, scanned at any later time, shows the calls of its interval. A further call
changes no tree that was returned, and in the current one no entry but that of its own
MMSI. Nothing in it mentions the shape of a tree, and a tree that was returned may be
scanned while calls go on. -/
theorem cache_refines (mem : Memory) (ops : List CacheOp) :
    ∃ r, cacheRun mem ops = some r ∧
      List.Forall₂ (fun calls q => ∃ entries, cacheScan q r.cache = some entries ∧
        Snapshot calls entries) (intervals ops).closed r.returned ∧
      ∀ call, ∃ s', cacheUpdate call r.cache = some s' ∧
        (∀ q ∈ r.returned, cacheScan q s' = cacheScan q r.cache) ∧
        ∃ before after, cacheScan r.cache.spt r.cache = some before ∧
          cacheScan s'.spt s' = some after ∧
          ∀ k e, k ≠ call.mmsi.toUInt32 → ((k, e) ∈ after ↔ (k, e) ∈ before) := by
  obtain ⟨r, hrun, t, rest, free, hinv, hcurrent, hhandles, hreturned⟩ := cacheRun_refines mem ops
  rw [run_intervals] at hcurrent hreturned
  refine ⟨r, hrun, ?_, fun call => ?_⟩
  · rw [← hhandles]
    exact scan_snapshots hinv (List.subset_cons_self _ _) (List.forall₂_map_right_iff.mp hreturned)
  · obtain ⟨s', t', free', hwrite, hinv', hcurrent', hsame⟩ :=
      cacheWrite_spec hinv hcurrent call.mmsi call.write
    obtain ⟨before, hbefore, -, hmem⟩ := cacheScan_spec hinv (List.mem_cons_self ..) hcurrent
    obtain ⟨after, hafter, -, hmem'⟩ := cacheScan_spec hinv' (List.mem_cons_self ..) hcurrent'
    refine ⟨s', by rw [cacheUpdate_eq, hwrite], ?_, before, after, hbefore, hafter, ?_⟩
    · intro q hq
      rw [← hhandles] at hq
      obtain ⟨x, hx, rfl⟩ := List.mem_map.mp hq
      exact cacheScan_same hinv (List.mem_cons_of_mem _ hx) hinv' (List.mem_cons_of_mem _ hx)
        fun p hp => hsame p (mem_treeNodes hx hp)
    · intro k e hk
      rw [hmem, hmem', Function.update_of_ne hk]

end Gnuais
