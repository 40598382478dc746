import Gnuais.Drain
import Mathlib.Algebra.Order.Group.Unbundled.Abs
import Mathlib.Algebra.Order.Ring.Rat

/-!
# The JSON export (`out_json.c`)

`jsonout_export` takes the current tree out of the cache, walks it and writes for
each entry up to three messages: a position (`msgtype` 3), static data (5) and the
number of persons on board (8).

* `JsonMsg` — a message, with its members as keys and values. The text around the
  members and the post to the servers are left out.
* `exportEnt` — the messages of one entry.
* `jsonoutExport` — the messages of the whole cache.

The sign and range tests on floating-point fields are made on the exact value of
the field (`FloatExpr.value`).
-/

namespace Gnuais

open LinkTree

/-! ## Messages

A message is written member by member, each behind a test whether its value was received.
The members are kept as data here; `JsonText` turns them into the text. -/

/-- The exact value. -/
def FloatExpr.value : FloatExpr → ℚ
  | .ofInt i => i
  | .lit n => n
  | .div x y => x.value / y.value
  | .sub x y => x.value - y.value

/-- The key of a member, as printed but for `refFront`, `refLeft` and
`personsOnBoard`, which stand for names with underscores. -/
inductive JsonKey where
  /-- of the position message, up to `status` -/
  | lat
  | lon
  | course
  | heading
  | speed
  | status
  /-- of the static data, up to `refLeft` -/
  | imo
  /-- of the static data as well -/
  | shiptype
  | callsign
  | shipname
  | destination
  | length
  | refFront
  | draught
  | width
  | refLeft
  /-- the only member of the third message -/
  | personsOnBoard
  deriving DecidableEq, Repr

/-- The value of a member, by its conversion: `%d`, `%.7f` or `%.1f`, `"%s"`. -/
inductive JsonValue where
  /-- an integer -/
  | d (i : ℤ)
  /-- a number with so many places behind the point -/
  | f (places : ℕ) (x : FloatExpr)
  /-- a string, which is printed as it is -/
  | s (bytes : List UInt8)
  deriving DecidableEq, Repr

/-- The members in the order of the text. -/
abbrev JsonMembers : Type := List (JsonKey × JsonValue)

/-- One object of the array `msgs`. -/
structure JsonMsg where
  /-- 3, 5 or 8 -/
  msgtype : ℕ
  /-- the vessel, printed as a signed number -/
  mmsi : Int32
  /-- when the report came that the members are from -/
  rxtime : ℤ
  /-- what is known of the vessel -/
  members : JsonMembers
  deriving DecidableEq, Repr

/-- `if (cond) json = str_append(json, ...);` -/
def appendIf (cond : Bool) (members : JsonMembers) : JsonMembers :=
  if cond then members else []

/-- `if (s) json = str_append(json, ", \"key\": \"%s\"", s);` -/
def appendString (key : JsonKey) (s : Option (List UInt8)) : JsonMembers :=
  match s with
  | none => []
  | some s => [(key, .s s)]

/-- A member that is appended is an old one, or the test was passed. -/
@[simp] theorem mem_appendIf {cond : Bool} {members : JsonMembers} {x : JsonKey × JsonValue} :
    x ∈ appendIf cond members ↔ cond ∧ x ∈ members := by
  cases cond <;> simp [appendIf]

/-- The same for a string. -/
@[simp] theorem mem_appendString {key : JsonKey} {s : Option (List UInt8)}
    {x : JsonKey × JsonValue} : x ∈ appendString key s ↔ ∃ bytes, s = some bytes ∧ x = (key, .s bytes) := by
  cases s <;> simp [appendString]

/-! ## The export

The tree is taken away with a rotation and walked as in `Drain`. Each entry gives as many
messages as it has kinds of data, and none if it has only an MMSI. -/

/-- `got_pos` -/
def gotPos (e : CacheEnt) : Bool :=
  (e.lat.value > 1 / 10000 || e.lat.value < -(1 / 10000)) &&
    (e.lon.value > 1 / 10000 || e.lon.value < -(1 / 10000))

/-- The message of a position. -/
def exportPosition (e : CacheEnt) : List JsonMsg :=
  if e.mmsi ≠ 0 ∧ gotPos e then
    [{ msgtype := 3
       mmsi := e.mmsi
       rxtime := e.receivedPos
       members :=
        [(.lat, .f 7 e.lat), (.lon, .f 7 e.lon)]
        ++ appendIf (e.course.value ≥ 0) [(.course, .f 1 e.course)]
        ++ appendIf (e.hdg ≥ 0) [(.heading, .d e.hdg)]
        ++ appendIf (e.sog.value ≥ 0) [(.speed, .f 1 e.sog)]
        ++ appendIf (e.navstat ≥ 0) [(.status, .d e.navstat)] }]
  else []

/-- The members of the static data. -/
def dataMembers (e : CacheEnt) : JsonMembers :=
  appendIf (e.imo ≥ 0) [(.imo, .d e.imo)]
  ++ appendIf (e.shiptype ≥ 0) [(.shiptype, .d e.shiptype)]
  ++ appendString .callsign e.callsign
  ++ appendString .shipname e.name
  ++ appendString .destination e.destination
  ++ appendIf (e.a ≥ 0 && e.b ≥ 0) [(.length, .d (e.a + e.b)), (.refFront, .d e.a)]
  ++ appendIf (e.draught.value ≥ 0) [(.draught, .f 1 e.draught)]
  ++ appendIf (e.c ≥ 0 && e.d ≥ 0) [(.width, .d (e.c + e.d)), (.refLeft, .d e.c)]

/-- The message of the static data, which is written for a vessel that has a number and a
name. -/
def exportData (e : CacheEnt) : List JsonMsg :=
  if e.mmsi ≠ 0 ∧ e.name.isSome then
    [{ msgtype := 5
       mmsi := e.mmsi
       rxtime := e.receivedData
       members := dataMembers e }]
  else []

/-- The message of the persons on board. -/
def exportPersons (e : CacheEnt) : List JsonMsg :=
  if e.personsOnBoard ≥ 0 then
    [{ msgtype := 8
       mmsi := e.mmsi
       rxtime := e.receivedPersonsOnBoard
       members := [(.personsOnBoard, .d e.personsOnBoard)] }]
  else []

/-- What one turn of the loop of `jsonout_export` appends. Each of the three is left out
if nothing of its kind was received. -/
def exportEnt (e : CacheEnt) : List JsonMsg := exportPosition e ++ exportData e ++ exportPersons e

/-- `jsonout_export`: the messages in the order of the text, which is posted if
there are any, and the cache after it. -/
def jsonoutExport (s : CacheState) : Option (List JsonMsg × CacheState) := do
  let (sp, s) := cacheRotate s
  let d ← drain sp s
  return (d.visited.flatMap fun v => exportEnt v.2, d.cache)

/-- The messages are those of the entries of the calls since the last rotation. -/
theorem jsonoutExport_spec (mem : Memory) (ops : List CacheOp) :
    ∃ r entries s, cacheRun mem ops = some r ∧
      jsonoutExport r.cache = some (entries.flatMap fun x => exportEnt x.2, s) ∧
      Snapshot (intervals ops).current entries := by
  obtain ⟨r, hrun, ⟨t, rest, free, hinv, hcurrent, -, -⟩, hcounted⟩ := cacheRun_counted mem ops
  rw [run_intervals] at hcurrent hcounted
  have hx : (r.cache.spt, t) ∈ (spInit, NodeTree.leaf) :: (rest ++ [(r.cache.spt, t)]) :=
    List.mem_cons_of_mem _ (List.mem_append_right _ (List.mem_singleton_self _))
  obtain ⟨⟨d, hdrain, hsnapshot, -⟩, -⟩ := drain_snapshot hinv.rotate hx
    (hcurrent.same rfl fun _ _ => ⟨rfl, rfl⟩) (List.forall₂_cons.mp hcounted).1
  refine ⟨r, _, d.cache, hrun, ?_, hsnapshot⟩
  rw [jsonoutExport, cacheRotate]
  simp only [Option.bind_eq_bind, hdrain, Option.bind_some, List.flatMap_map]
  rfl

end Gnuais
