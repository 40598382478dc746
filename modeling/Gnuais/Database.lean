import Mathlib.Data.List.Induction
import Gnuais.MySql
import Gnuais.Lib.Upsert

/-!
# One row per vessel

`out_mysql.c` with `mysql_keepsmall`: of the positions, the static data and the
base stations only the latest are kept, by an `UPDATE` and, if it affected no
row, an `INSERT`. Every tenth position report first deletes what is older than
`mysql_oldlimit`.

* `MySqlState.report` — what a call of a decoder does to the tables.
* `ReportKeeps` — when it keeps one row to a vessel.

The server counts the rows an `UPDATE` changed. So a report that says what the
row says already, with the same time, is inserted beside it
(`repeated_report_inserted`); while no report does, there is one row to a vessel,
and it is up to date (`keepsmall_one_row`).
-/

namespace Gnuais

open Sql

/-! ## The calls

A call sends its statements to the server one after the other and looks at one number
only: how many rows the `UPDATE` affected. The server and its tables are those of the
library, where the numbers may be rounded as the columns do it. -/

/-- `mysql_keepsmall` and `mysql_oldlimit` -/
structure MySqlConfig where
  /-- `mysql_keepsmall`: one row to a vessel, and not one to a report -/
  keepsmall : Bool
  /-- `mysql_oldlimit`, in seconds -/
  oldlimit : ℤ

/-- `struct mysql_state_t`, and the tables behind the connection. -/
structure MySqlState (δ : Type) where
  /-- the position reports since the last clean-up -/
  inserts : ℕ
  /-- what the server has -/
  tables : Tables δ

/-- What `myout_init` leaves, and no rows yet. -/
def MySqlState.init (δ : Type) : MySqlState δ := ⟨0, fun _ => []⟩

/-- The statements of a report. The sentences are not among the reports: they
go to a table of their own, which nothing reads or updates. -/
def queriesOf (fmt : FloatFormat) : Call → Option Queries
  | .myoutAisPosition t m lat lon hdg course sog =>
    some (myoutAisPosition fmt t m lat lon hdg course sog)
  | .myoutAisBasestation t m lat lon => some (myoutAisBasestation fmt t m lat lon)
  | .myoutAisVesseldata t m name destination draught a b c d =>
    some (myoutAisVesseldata fmt t m name destination draught a b c d)
  | .myoutAisVesseldatab t m a b c d => some (myoutAisVesseldatab t m a b c d)
  | .myoutAisVesselname t m name destination => some (myoutAisVesselname t m name destination)
  | _ => none

/-- `DELETE FROM %s WHERE time < %ld` -/
def deleteBefore (table : String) (bound : ℤ) : Statement :=
  .delete (ascii table) (ascii "time") (sqlNumber (printLong bound))

section Calls

variable {δ : Type} [DecidableEq δ] (S : Server δ) (cfg : MySqlConfig)

/-- `myout_delete_from` -/
def myoutDeleteFrom (now : ℤ) (db : Tables δ) (table : String) : Tables δ :=
  match S.query (queryText (deleteBefore table (now - cfg.oldlimit))) db with
  | some res => res.1
  | none => db

/-- `myout_delete_old` -/
def myoutDeleteOld (now : ℤ) (db : Tables δ) : Tables δ :=
  if cfg.oldlimit > 0 then
    ["ais_position", "ais_vesseldata", "ais_basestation", "ais_nmea"].foldl
      (myoutDeleteFrom S cfg now) db
  else db

/-- `myout_update_or_insert`. The return value, which no caller looks at, is left
out. -/
def myoutUpdateOrInsert (q : Queries) (db : Tables δ) : Tables δ :=
  let insert (db : Tables δ) :=
    match S.query (queryText q.ins) db with
    | some (db', _) => db'
    | none => db
  if cfg.keepsmall then
    match S.query (queryText q.upd) db with
    | some (db', qrows) => if qrows > 0 then db' else insert db'
    | none => db
  else insert db

/-- The beginning of `myout_ais_position`: every tenth one cleans up. -/
def MySqlState.count (tid : ℤ) (s : MySqlState δ) : MySqlState δ :=
  if (s.inserts + 1) % 10 = 0 then ⟨0, myoutDeleteOld S cfg tid s.tables⟩
  else { s with inserts := s.inserts + 1 }

/-- What comes in front of the statements of a call. -/
def MySqlState.before (s : MySqlState δ) : Call → MySqlState δ
  | .myoutAisPosition t .. => s.count S cfg t
  | _ => s

/-- A call. -/
def MySqlState.report (fmt : FloatFormat) (s : MySqlState δ) (c : Call) : MySqlState δ :=
  let s := s.before S cfg c
  match queriesOf fmt c with
  | some q => { s with tables := myoutUpdateOrInsert S cfg q s.tables }
  | none => s

/-- Some calls, from empty tables. -/
def MySqlState.run (fmt : FloatFormat) (calls : List Call) : MySqlState δ :=
  calls.foldl (MySqlState.report S cfg fmt) (.init δ)

end Calls

/-! ## The reports are upserts

Every statement of a report has the same columns behind the time and the MMSI. So it is an
upsert in the sense of the library, with the MMSI for its key, and all that is known of
upserts is known of the reports. -/

/-- The two statements of a report with these columns. -/
def upsertMmsi (table : String) (mmsi : ℤ) (inserted updated : List (List UInt8 × Value))
    (names names' : List String)
    (hkey : (ascii "mmsi", Value.number (sqlNumber (printInt mmsi))) ∈ inserted)
    (hinserted : inserted.map (·.1) = names.map ascii)
    (hupdated : updated.map (·.1) = names'.map ascii)
    (hnames : (names.map ascii).Nodup ∧
      (names.map ascii).Perm (ascii "mmsi" :: names'.map ascii) ∧
      ascii "WHERE" ∉ names'.map ascii) : Upsert where
  table := ascii table
  key := ascii "mmsi"
  id := sqlNumber (printInt mmsi)
  inserted := inserted
  updated := updated
  key_mem := hkey
  nodup := by rw [hinserted]; exact hnames.1
  perm := by rw [hinserted, hupdated]; exact hnames.2.1
  readable := by rw [hupdated]; exact hnames.2.2

/-- The values an `INSERT` or an `UPDATE` writes. -/
def values : Statement → List (List UInt8 × Value)
  | .insert _ values | .update _ values _ _ => values
  | .delete .. => []

/-- A report as an upsert. -/
def upsertOf (fmt : FloatFormat) : Call → Option Upsert
  | .myoutAisPosition t m lat lon hdg course sog =>
    let q := myoutAisPosition fmt t m lat lon hdg course sog
    some (upsertMmsi "ais_position" m (values q.ins) (values q.upd)
      ["time", "mmsi", "latitude", "longitude", "heading", "course", "speed"]
      ["time", "latitude", "longitude", "heading", "course", "speed"]
      (List.mem_cons_of_mem _ (List.mem_cons_self ..)) rfl rfl (by decide))
  | .myoutAisBasestation t m lat lon =>
    let q := myoutAisBasestation fmt t m lat lon
    some (upsertMmsi "ais_basestation" m (values q.ins) (values q.upd)
      ["time", "mmsi", "latitude", "longitude"] ["time", "latitude", "longitude"]
      (List.mem_cons_of_mem _ (List.mem_cons_self ..)) rfl rfl (by decide))
  | .myoutAisVesseldata t m name destination draught a b c d =>
    let q := myoutAisVesseldata fmt t m name destination draught a b c d
    some (upsertMmsi "ais_vesseldata" m (values q.ins) (values q.upd)
      ["time", "mmsi", "name", "destination", "draught", "A", "B", "C", "D"]
      ["time", "name", "destination", "A", "B", "C", "D", "draught"]
      (List.mem_cons_of_mem _ (List.mem_cons_self ..)) rfl rfl (by decide))
  | .myoutAisVesseldatab t m a b c d =>
    let q := myoutAisVesseldatab t m a b c d
    some (upsertMmsi "ais_vesseldata" m (values q.ins) (values q.upd)
      ["time", "mmsi", "A", "B", "C", "D"] ["time", "A", "B", "C", "D"]
      (List.mem_cons_of_mem _ (List.mem_cons_self ..)) rfl rfl (by decide))
  | .myoutAisVesselname t m name destination =>
    let q := myoutAisVesselname t m name destination
    some (upsertMmsi "ais_vesseldata" m (values q.ins) (values q.upd)
      ["time", "mmsi", "name", "destination"] ["time", "name", "destination"]
      (List.mem_cons_of_mem _ (List.mem_cons_self ..)) rfl rfl (by decide))
  | _ => none

/-- The statements of a report are those of its upsert. -/
theorem queries_eq (fmt : FloatFormat) (c : Call) :
    queriesOf fmt c = (upsertOf fmt c).map fun u => ⟨u.insert, u.update⟩ := by
  cases c <;> rfl

/-- Both reach the server as they were built. -/
theorem upsert_sendable {fmt : FloatFormat} {c : Call} (hc : MessageCall c) {u : Upsert}
    (hu : upsertOf fmt c = some u) : Sendable u.insert ∧ Sendable u.update := by
  have hsendable : ∀ q, queriesOf fmt c = some q → q.Sendable := by
    intro q hq
    cases hc with
    | myoutAisPosition => obtain rfl := Option.some.inj hq; exact myoutAisPosition_sendable ..
    | myoutAisBasestation => obtain rfl := Option.some.inj hq; exact myoutAisBasestation_sendable ..
    | myoutAisVesseldata _ _ _ _ _ _ _ hname hdestination =>
      obtain rfl := Option.some.inj hq
      exact myoutAisVesseldata_sendable fmt _ _ hname hdestination ..
    | myoutAisVesseldatab => obtain rfl := Option.some.inj hq; exact myoutAisVesseldatab_sendable ..
    | myoutAisVesselname _ _ hname hdestination =>
      obtain rfl := Option.some.inj hq
      exact myoutAisVesselname_sendable _ _ hname hdestination
    | _ => cases hq
  exact hsendable ⟨u.insert, u.update⟩ (by rw [queries_eq, hu]; rfl)

/-- The key is the sender. -/
theorem upsert_key {fmt : FloatFormat} {c : Call} {u : Upsert} (hu : upsertOf fmt c = some u) :
    u.key = ascii "mmsi" := by
  cases c <;> cases hu <;> rfl

/-- So does the clean-up. -/
theorem deleteBefore_sendable {table : String} (htable : IsName (ascii table))
    (hshort : (ascii table).length ≤ 15) (bound : ℤ) : Sendable (deleteBefore table bound) := by
  refine ⟨⟨htable, by decide, sqlNumber_wellFormed _⟩, queryText_eq ?_⟩
  have hfixed : (ascii "DELETE FROM ").length = 12 ∧ (ascii " WHERE ").length = 7 ∧
      (ascii "time").length = 4 ∧ (ascii " < ").length = 3 := by decide
  have hnumber : (sqlNumber (printLong bound)).text.length ≤ 20 := length_printLong_le bound
  simp only [deleteBefore, Statement.text, List.length_append, hfixed, maxSqlLen]
  omega

/-! ## Runs

One row to a vessel is kept by each call that meets its condition. The clean-ups between
the calls only take rows away, so they keep it too. -/

section Runs

variable {δ : Type} [DecidableEq δ] (S : Server δ) (cfg : MySqlConfig) (fmt : FloatFormat)

/-- The reports among some calls. -/
def upsertsOf (calls : List Call) : List Upsert := calls.filterMap (upsertOf fmt)

/-- When a report keeps one row to a vessel: its strings denote themselves, its
`UPDATE` changes the row that is there behind a clean-up, and if none is, its
`INSERT` writes every column that was ever written for the vessel. -/
def ReportKeeps (earlier : List Call) (c : Call) : Prop :=
  ∀ u, upsertOf fmt c = some u →
    (∀ s ∈ u.insert.strings, Plain s) ∧ (∀ s ∈ u.update.strings, Plain s) ∧
      u.Keeps S (upsertsOf fmt earlier) ((MySqlState.run S cfg fmt earlier).before S cfg c).tables

variable {S cfg fmt}

/-- A statement that reaches the server is the one it runs. -/
theorem query_sendable {q : Statement} (hq : Sendable q) (hread : q.Readable)
    (hplain : ∀ s ∈ q.strings, Plain s) (db : Tables δ) :
    S.query (queryText q) db = some (q.run S db) := by
  rw [hq.2]
  exact query_text S hq.1 hread hplain db

/-- With `mysql_keepsmall`, `myout_update_or_insert` is an upsert. -/
theorem updateOrInsert_eq (hkeepsmall : cfg.keepsmall = true) {u : Upsert}
    (hsendable : Sendable u.insert ∧ Sendable u.update)
    (hinsert : ∀ s ∈ u.insert.strings, Plain s) (hupdate : ∀ s ∈ u.update.strings, Plain s)
    (db : Tables δ) :
    myoutUpdateOrInsert S cfg ⟨u.insert, u.update⟩ db = u.run S db := by
  simp only [myoutUpdateOrInsert, hkeepsmall, if_true,
    query_sendable hsendable.2 u.readable hupdate, query_sendable hsendable.1 trivial hinsert]
  rfl

/-- The server deletes the old rows. -/
theorem deleteBefore_query {table : String} (htable : IsName (ascii table))
    (hshort : (ascii table).length ≤ 15) (bound : ℤ) (db : Tables δ) :
    S.query (queryText (deleteBefore table bound)) db =
      some ((deleteBefore table bound).run S db) := by
  have hstrings : (deleteBefore table bound).strings = [] := rfl
  refine query_sendable (deleteBefore_sendable htable hshort bound) trivial ?_ db
  rw [hstrings]
  exact fun _ h => absurd h List.not_mem_nil

/-- From one table. -/
theorem deleteFrom_sublist {table : String} (htable : IsName (ascii table))
    (hshort : (ascii table).length ≤ 15) (now : ℤ) (db : Tables δ) (table' : List UInt8) :
    (myoutDeleteFrom S cfg now db table table').Sublist (db table') := by
  unfold myoutDeleteFrom
  rw [deleteBefore_query htable hshort]
  exact delete_sublist (ascii table) (ascii "time") _ db table'

/-- A clean-up takes rows away and leaves the others as they are. -/
theorem deleteOld_sublist (now : ℤ) (db : Tables δ) (table : List UInt8) :
    (myoutDeleteOld S cfg now db table).Sublist (db table) := by
  rw [myoutDeleteOld]
  split
  · have hstep : ∀ t ∈ ["ais_position", "ais_vesseldata", "ais_basestation", "ais_nmea"],
        IsName (ascii t) ∧ (ascii t).length ≤ 15 := by decide
    generalize ["ais_position", "ais_vesseldata", "ais_basestation", "ais_nmea"] = names at hstep ⊢
    induction names generalizing db with
    | nil => exact List.Sublist.refl _
    | cons t names ih =>
      obtain ⟨ht, hshort⟩ := hstep t (List.mem_cons_self ..)
      exact (ih _ fun t' ht' => hstep t' (List.mem_cons_of_mem _ ht')).trans
        (deleteFrom_sublist ht hshort now db table)
  · exact List.Sublist.refl _

variable (S cfg) in
/-- What comes in front of a call only takes rows away. -/
theorem before_sublist (s : MySqlState δ) (c : Call) (table : List UInt8) :
    ((s.before S cfg c).tables table).Sublist (s.tables table) := by
  cases c with
  | myoutAisPosition t m lat lon hdg course sog =>
    rw [MySqlState.before, MySqlState.count]
    split
    · exact deleteOld_sublist ..
    · exact List.Sublist.refl _
  | _ => exact List.Sublist.refl _

/-- One call. -/
theorem report_oneRow (hkeepsmall : cfg.keepsmall = true) {earlier : List Call} {c : Call}
    (hc : MessageCall c) (hkeeps : ReportKeeps S cfg fmt earlier c) {table : List UInt8}
    (h : ∀ d, OneRow S (upsertsOf fmt earlier) (MySqlState.run S cfg fmt earlier).tables table
      (ascii "mmsi") d) (d : δ) :
    OneRow S (upsertsOf fmt (earlier ++ [c])) (MySqlState.run S cfg fmt (earlier ++ [c])).tables
      table (ascii "mmsi") d := by
  have hbefore := fun d => (h d).sublist
    (before_sublist S cfg (MySqlState.run S cfg fmt earlier) c table)
  have hstate : MySqlState.run S cfg fmt (earlier ++ [c]) =
      (MySqlState.run S cfg fmt earlier).report S cfg fmt c := by
    rw [MySqlState.run, List.foldl_append, List.foldl_cons, List.foldl_nil, MySqlState.run]
  rw [hstate, MySqlState.report, queries_eq, upsertsOf, List.filterMap_append]
  cases hu : upsertOf fmt c with
  | none =>
    rw [List.filterMap_cons_none hu, List.filterMap_nil, List.append_nil]
    exact hbefore d
  | some u =>
    obtain ⟨hinsert, hupdate, hkeep⟩ := hkeeps u hu
    rw [List.filterMap_cons_some hu, List.filterMap_nil]
    show OneRow S _ (myoutUpdateOrInsert S cfg ⟨u.insert, u.update⟩ _) table (ascii "mmsi") d
    rw [updateOrInsert_eq hkeepsmall (upsert_sendable hc hu) hinsert hupdate]
    rw [← upsert_key hu] at hbefore ⊢
    exact oneRow_run hkeep hbefore d

/-- The other way round: a report that says what the rows of the vessel say already
makes one row more. -/
theorem repeated_report_inserted (hkeepsmall : cfg.keepsmall = true) {c : Call}
    (hc : MessageCall c) {u : Upsert} (hu : upsertOf fmt c = some u)
    (hinsert : ∀ s ∈ u.insert.strings, Plain s) (hupdate : ∀ s ∈ u.update.strings, Plain s)
    (s : MySqlState δ)
    (hsame : ∀ r ∈ rowsOf u.key (u.datum S) ((s.before S cfg c).tables u.table),
      ∀ a ∈ u.updated, r a.1 = some (S.stored u.table a.1 a.2)) :
    (rowsOf u.key (u.datum S) ((s.report S cfg fmt c).tables u.table)).length =
      (rowsOf u.key (u.datum S) ((s.before S cfg c).tables u.table)).length + 1 := by
  have hqueries : queriesOf fmt c = some ⟨u.insert, u.update⟩ := by
    rw [queries_eq, hu]
    rfl
  rw [MySqlState.report, hqueries]
  show (rowsOf _ _ (myoutUpdateOrInsert S cfg ⟨u.insert, u.update⟩ _ u.table)).length = _
  rw [updateOrInsert_eq hkeepsmall (upsert_sendable hc hu) hinsert hupdate]
  exact length_rowsOf_unchanged hsame

/-- With `mysql_keepsmall`, in every run whose reports meet the condition, each table has
at most one row per vessel at all times, and each column of the row is as the latest
report that writes it left it. The condition is on each report and the tables in front of
it. It allows for clean-ups, which may take the row away between two reports. -/
theorem keepsmall_one_row (hkeepsmall : cfg.keepsmall = true) (calls : List Call)
    (hcalls : ∀ c ∈ calls, MessageCall c)
    (hkeeps : ∀ earlier c later, calls = earlier ++ c :: later → ReportKeeps S cfg fmt earlier c)
    (earlier later : List Call) (hreached : calls = earlier ++ later) :
    ∀ table ∈ ["ais_position", "ais_vesseldata", "ais_basestation"], ∀ d : δ,
      OneRow S (upsertsOf fmt earlier) (MySqlState.run S cfg fmt earlier).tables (ascii table)
        (ascii "mmsi") d := by
  have hall : ∀ table d, OneRow S (upsertsOf fmt earlier)
      (MySqlState.run S cfg fmt earlier).tables table (ascii "mmsi") d := by
    induction earlier using List.reverseRecOn generalizing later with
    | nil => exact fun table d => oneRow_nil table _ d
    | append_singleton earlier c ih =>
      rw [List.append_assoc, List.singleton_append] at hreached
      have hc : c ∈ calls := by
        rw [hreached]
        exact List.mem_append_right _ (List.mem_cons_self ..)
      exact fun table => report_oneRow hkeepsmall (hcalls c hc) (hkeeps earlier c later hreached)
        (ih (c :: later) hreached table)
  exact fun table _ => hall (ascii table)

end Runs

/-- The digits of a number without the zeros that change nothing. -/
def withoutZeros (digits : List UInt8) : List UInt8 :=
  if 46 ∈ digits then
    ((digits.reverse.dropWhile (· = 48)).dropWhile (· = 46)).reverse
  else digits

/-- The number, if it is an integer. -/
def integerOf (n : Number) : ℤ :=
  if n.negative then -(Numeral.valueOf n.digits : ℤ) else Numeral.valueOf n.digits

/-- A server whose columns keep numbers exactly. -/
def Server.exact : Server Value where
  stored _ _
    | .number n => .number ⟨n.negative, withoutZeros n.digits⟩
    | .string s => .string s
  below
    | .number n, .number m => decide (integerOf n < integerOf m)
    | _, _ => false
  other _ _ := none

/-- A ship at the origin, heard at a time. -/
def originReport (t : ℤ) : Call :=
  .myoutAisPosition t 0 (scaled 0 600000) (scaled 0 600000) (.ofInt 0) (scaled 0 10) (scaled 0 10)

def originKey : Value := .number ⟨false, [48]⟩

theorem originReport_strings {t : ℤ} {u : Upsert} (hu : upsertOf .zero (originReport t) = some u) :
    (∀ s ∈ u.insert.strings, Plain s) ∧ ∀ s ∈ u.update.strings, Plain s := by
  obtain rfl := Option.some.inj hu
  exact ⟨List.forall_mem_nil _, List.forall_mem_nil _⟩

/-- Heard in two seconds. -/
theorem keepsmall_one_row_origin :
    OneRow Server.exact (upsertsOf .zero [originReport 0, originReport 1])
      (MySqlState.run Server.exact ⟨true, 0⟩ .zero [originReport 0, originReport 1]).tables
      (ascii "ais_position") (ascii "mmsi") originKey := by
  refine keepsmall_one_row rfl [originReport 0, originReport 1] ?_ ?_ _ [] rfl "ais_position"
    (List.mem_cons_self ..) originKey
  · intro c hc
    rcases List.mem_cons.mp hc with rfl | hc
    · exact .myoutAisPosition ..
    · obtain rfl := List.mem_singleton.mp hc
      exact .myoutAisPosition ..
  · intro earlier c later h u hu
    rcases earlier with _ | ⟨c₀, _ | ⟨c₁, earlier⟩⟩
    · obtain ⟨rfl, -⟩ := List.cons.inj h
      obtain ⟨hinsert, hupdate⟩ := originReport_strings hu
      exact ⟨hinsert, hupdate, keeps_nil u⟩
    · obtain ⟨rfl, htail⟩ := List.cons.inj h
      obtain ⟨rfl, -⟩ := List.cons.inj (show [originReport 1] = c :: later from htail)
      obtain ⟨hinsert, hupdate⟩ := originReport_strings hu
      obtain rfl := Option.some.inj hu
      exact ⟨hinsert, hupdate, by decide +kernel, fun h => absurd h (by decide +kernel)⟩
    · exact absurd (congrArg List.length h) (by simp)

/-- The same report twice in one second: two rows. -/
theorem same_second_two_rows :
    ∃ calls, messageCalls .database 1 168 (Vector.replicate _ 0) 0 0 = some calls ∧
      ¬ OneRow Server.exact (upsertsOf .zero (calls ++ calls))
        (MySqlState.run Server.exact ⟨true, 0⟩ .zero (calls ++ calls)).tables
        (ascii "ais_position") (ascii "mmsi") originKey := by
  obtain ⟨calls, hcalls, hrows⟩ := Option.map_eq_some_iff.mp (show
    (messageCalls .database 1 168 (Vector.replicate _ 0) 0 0).map (fun calls =>
      (rowsOf (ascii "mmsi") originKey
        ((MySqlState.run Server.exact ⟨true, 0⟩ .zero (calls ++ calls)).tables
          (ascii "ais_position"))).length) = some 2 by decide +kernel)
  refine ⟨calls, hcalls, fun h => ?_⟩
  have hone := h.length_le
  rw [hrows] at hone
  exact absurd hone (by decide)

end Gnuais
