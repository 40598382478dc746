import Gnuais.StaticReports
import Gnuais.Print
import Gnuais.Lib.Statement

/-!
# The database statements

`out_mysql.c`: each report of the decoder is turned into an `INSERT` and an
`UPDATE`, both built by `snprintf` around the numbers and the text that were
received.

Names and destinations come off the air, from an alphabet with `"` and the
backslash in it, and are put between double quotes as they are. The statements
say what is meant exactly if both denote themselves there
(`vesseldata_sameStructure_iff`, `vesselname_sameStructure_iff`,
`sql_structure_iff`).
-/

namespace Gnuais

open Sql Bits Layout

/-- `MAX_SQL_LEN` -/
def maxSqlLen : ℕ := 2000

/-- The two statements given to `myout_update_or_insert`. -/
structure Queries where
  /-- tried if the other one affected no row -/
  ins : Statement
  /-- tried first -/
  upd : Statement
  deriving DecidableEq

/-- What `snprintf` leaves of a statement's text. -/
def queryText (q : Statement) : List UInt8 := q.text.take (maxSqlLen - 1)

/-- A printed number in a statement. -/
def sqlNumber (n : Numeral) : Number := ⟨n.negative, n.digits⟩

/-! ## The statements

A statement is written with formats and arguments in one call of `snprintf`. Its structure
is kept here, and its text is made of it. -/

section Builders

variable (fmt : FloatFormat)

/-- `column`, `%ld` -/
def longColumn (column : String) (i : ℤ) : List UInt8 × Value :=
  (ascii column, .number (sqlNumber (printLong i)))

/-- `column`, `%d` -/
def intColumn (column : String) (i : ℤ) : List UInt8 × Value :=
  (ascii column, .number (sqlNumber (printInt i)))

/-- `column`, `%.<prec>f` -/
def floatColumn (column : String) (prec : ℕ) (x : FloatExpr) : List UInt8 × Value :=
  (ascii column, .number (sqlNumber (fmt.fixed prec x)))

/-- `column`, `\"%s\"` -/
def textColumn (column : String) (s : List UInt8) : List UInt8 × Value :=
  (ascii column, .string s)

/-- `UPDATE ... WHERE mmsi=%d` -/
def updateMmsi (table : String) (values : List (List UInt8 × Value)) (mmsi : ℤ) : Statement :=
  .update (ascii table) values (ascii "mmsi") (sqlNumber (printInt mmsi))

/-- `myout_ais_position` -/
def myoutAisPosition (tid mmsi : ℤ) (lat lon hdg course sog : FloatExpr) : Queries where
  ins := .insert (ascii "ais_position")
    [longColumn "time" tid, intColumn "mmsi" mmsi, floatColumn fmt "latitude" 7 lat,
      floatColumn fmt "longitude" 7 lon, floatColumn fmt "heading" 5 hdg,
      floatColumn fmt "course" 6 course, floatColumn fmt "speed" 6 sog]
  upd := updateMmsi "ais_position"
    [longColumn "time" tid, floatColumn fmt "latitude" 7 lat, floatColumn fmt "longitude" 7 lon,
      floatColumn fmt "heading" 6 hdg, floatColumn fmt "course" 5 course,
      floatColumn fmt "speed" 6 sog] mmsi

/-- `myout_ais_basestation` -/
def myoutAisBasestation (tid mmsi : ℤ) (lat lon : FloatExpr) : Queries where
  ins := .insert (ascii "ais_basestation")
    [longColumn "time" tid, intColumn "mmsi" mmsi, floatColumn fmt "latitude" 7 lat,
      floatColumn fmt "longitude" 7 lon]
  upd := updateMmsi "ais_basestation"
    [longColumn "time" tid, floatColumn fmt "latitude" 7 lat, floatColumn fmt "longitude" 7 lon]
    mmsi

/-- `myout_ais_vesseldata` -/
def myoutAisVesseldata (tid mmsi : ℤ) (name destination : List UInt8) (draught : FloatExpr)
    (a b c d : ℤ) : Queries where
  ins := .insert (ascii "ais_vesseldata")
    [longColumn "time" tid, intColumn "mmsi" mmsi, textColumn "name" name,
      textColumn "destination" destination, floatColumn fmt "draught" 6 draught, intColumn "A" a,
      intColumn "B" b, intColumn "C" c, intColumn "D" d]
  upd := updateMmsi "ais_vesseldata"
    [longColumn "time" tid, textColumn "name" name, textColumn "destination" destination,
      intColumn "A" a, intColumn "B" b, intColumn "C" c, intColumn "D" d,
      floatColumn fmt "draught" 6 draught] mmsi

/-- `myout_ais_vesseldatab` -/
def myoutAisVesseldatab (tid mmsi : ℤ) (a b c d : ℤ) : Queries where
  ins := .insert (ascii "ais_vesseldata")
    [longColumn "time" tid, intColumn "mmsi" mmsi, intColumn "A" a, intColumn "B" b,
      intColumn "C" c, intColumn "D" d]
  upd := updateMmsi "ais_vesseldata"
    [longColumn "time" tid, intColumn "A" a, intColumn "B" b, intColumn "C" c, intColumn "D" d]
    mmsi

/-- `myout_ais_vesselname` -/
def myoutAisVesselname (tid mmsi : ℤ) (name destination : List UInt8) : Queries where
  ins := .insert (ascii "ais_vesseldata")
    [longColumn "time" tid, intColumn "mmsi" mmsi, textColumn "name" name,
      textColumn "destination" destination]
  upd := updateMmsi "ais_vesseldata"
    [longColumn "time" tid, textColumn "name" name, textColumn "destination" destination] mmsi

end Builders

/-! ## The statements fit and are well formed

A statement that does not fit in `MAX_SQL_LEN` would be cut off. The text that comes off
the air has 20 characters at most, so all of them fit; the lemmas count. -/

/-- A column whose name is a name and whose value is short. -/
def FitsColumn (a : List UInt8 × Value) : Prop :=
  IsName a.1 ∧ a.1.length ≤ 11 ∧ a.2.WellFormed ∧ a.2.text.length ≤ 48

/-- A name for such a column. -/
def FitsName (column : String) : Prop := IsName (ascii column) ∧ (ascii column).length ≤ 11

instance (column : String) : Decidable (FitsName column) := by
  unfold FitsName
  infer_instance

/-- Such columns, and not too many. -/
def Fits (values : List (List UInt8 × Value)) : Prop :=
  values ≠ [] ∧ values.length ≤ 9 ∧ ∀ a ∈ values, FitsColumn a

theorem sqlNumber_wellFormed (n : Numeral) : (sqlNumber n).WellFormed := n.digits_eq_cons

/-- A column of each conversion. -/
theorem longColumn_fits {column : String} (hname : FitsName column) (i : ℤ) : FitsColumn (longColumn column i) :=
  ⟨hname.1, hname.2, sqlNumber_wellFormed _, (length_printLong_le i).trans (by decide)⟩

theorem intColumn_fits {column : String} (hname : FitsName column) (i : ℤ) : FitsColumn (intColumn column i) :=
  ⟨hname.1, hname.2, sqlNumber_wellFormed _, (length_printInt_le i).trans (by decide)⟩

theorem floatColumn_fits {column : String} (hname : FitsName column) (fmt : FloatFormat) {prec : ℕ} (hprec : prec ≤ 7)
    (x : FloatExpr) : FitsColumn (floatColumn fmt column prec x) :=
  ⟨hname.1, hname.2, sqlNumber_wellFormed _, (fmt.length_le prec x).trans (by omega)⟩

theorem textColumn_fits {column : String} (hname : FitsName column) {s : List UInt8} (hs : SixbitText 20 s) :
    FitsColumn (textColumn column s) := by
  refine ⟨hname.1, hname.2, trivial, ?_⟩
  have hshort := hs.1
  rw [textColumn, Value.text, List.length_append, List.length_cons, List.length_singleton]
  omega

/-- The length of a list with commas in it. -/
theorem length_intercalate_le {α : Type} (sep : List α) (k : ℕ) {xs : List (List α)}
    (h : ∀ x ∈ xs, x.length ≤ k) : (List.intercalate sep xs).length ≤ xs.length * (k + sep.length) := by
  induction xs with
  | nil => exact Nat.zero_le _
  | cons x xs ih =>
    have hx := h x (List.mem_cons_self ..)
    have hrest := ih fun y hy => h y (List.mem_cons_of_mem _ hy)
    cases xs with
    | nil =>
      rw [List.intercalate_singleton, List.length_singleton]
      omega
    | cons y xs =>
      rw [List.intercalate_cons_cons, List.length_append, List.length_append, List.length_cons, Nat.succ_mul]
      omega

/-- A statement that reaches the server as it was built. -/
def Sendable (q : Statement) : Prop := q.WellFormed ∧ queryText q = q.text

/-- A statement that fits is not cut off. -/
theorem queryText_eq {q : Statement} (h : q.text.length < maxSqlLen) : queryText q = q.text :=
  List.take_of_length_le (by omega)

/-- An `INSERT` of such columns. -/
theorem insert_sendable {table : List UInt8} {values : List (List UInt8 × Value)}
    (htable : IsName table) (hshort : table.length ≤ 15) (hfits : Fits values) :
    Sendable (.insert table values) := by
  obtain ⟨hne, hcount, hcolumns⟩ := hfits
  refine ⟨⟨htable, hne, fun a ha => ⟨(hcolumns a ha).1, (hcolumns a ha).2.2.1⟩⟩, queryText_eq ?_⟩
  have hnames : (List.intercalate [44] (values.map (·.1))).length ≤ values.length * 12 := by
    have hle := length_intercalate_le [(44 : UInt8)] 11 (List.forall_mem_map.mpr fun a ha =>
      (hcolumns a ha).2.1)
    rwa [List.length_map] at hle
  have hvalues : (List.intercalate [44] (values.map (·.2.text))).length ≤ values.length * 49 := by
    have hle := length_intercalate_le [(44 : UInt8)] 48 (List.forall_mem_map.mpr fun a ha =>
      (hcolumns a ha).2.2.2)
    rwa [List.length_map] at hle
  have hfixed : (ascii "INSERT INTO ").length = 12 ∧ (ascii " (").length = 2 ∧
      (ascii ") VALUES (").length = 10 := by decide
  simp only [Statement.text, List.length_append, List.length_singleton, hfixed, maxSqlLen]
  omega

/-- An `UPDATE` of such columns. -/
theorem update_sendable {table : List UInt8} {values : List (List UInt8 × Value)} {key : List UInt8}
    {n : Numeral} (htable : IsName table) (hshort : table.length ≤ 15) (hfits : Fits values)
    (hkey : IsName key) (hkeylen : key.length ≤ 11) (hn : n.text.length ≤ 11) :
    Sendable (.update table values key (sqlNumber n)) := by
  obtain ⟨hne, hcount, hcolumns⟩ := hfits
  refine ⟨⟨htable, ⟨hne, fun a ha => ⟨(hcolumns a ha).1, (hcolumns a ha).2.2.1⟩⟩, hkey,
    sqlNumber_wellFormed n⟩, queryText_eq ?_⟩
  have hvalues : (List.intercalate [44, 32] (values.map assignText)).length ≤ values.length * 62 := by
    have hle := length_intercalate_le [(44 : UInt8), 32] 60 (List.forall_mem_map.mpr fun a ha =>
      show (assignText a).length ≤ 60 by
        obtain ⟨-, hname, -, hvalue⟩ := hcolumns a ha
        rw [assignText, List.length_append, List.length_cons]
        omega)
    rwa [List.length_map] at hle
  have hfixed : (ascii "UPDATE ").length = 7 ∧ (ascii " SET ").length = 5 ∧
      (ascii " WHERE ").length = 7 := by decide
  have hnumber : (sqlNumber n).text.length ≤ 11 := hn
  simp only [Statement.text, List.length_append, List.length_cons, hfixed, maxSqlLen]
  omega

section Fitting

variable (fmt : FloatFormat) (tid mmsi : ℤ)

/-- Both statements of a report reach the server as they were built. -/
def Queries.Sendable (q : Queries) : Prop := Gnuais.Sendable q.ins ∧ Gnuais.Sendable q.upd

/-- Both, for any report. -/
theorem queries_sendable {table : String} {inserted updated : List (List UInt8 × Value)}
    (htable : IsName (ascii table) ∧ (ascii table).length ≤ 15) (hinserted : Fits inserted)
    (hupdated : Fits updated) :
    Queries.Sendable ⟨.insert (ascii table) inserted, updateMmsi table updated mmsi⟩ :=
  ⟨insert_sendable htable.1 htable.2 hinserted,
    update_sendable htable.1 htable.2 hupdated (by decide) (by decide) (length_printInt_le mmsi)⟩

/-- The reports, one by one. -/
theorem myoutAisPosition_sendable (lat lon hdg course sog : FloatExpr) :
    (myoutAisPosition fmt tid mmsi lat lon hdg course sog).Sendable := by
  refine queries_sendable mmsi (by decide) ⟨List.cons_ne_nil _ _, by simp, ?_⟩
    ⟨List.cons_ne_nil _ _, by simp, ?_⟩
  · simp only [List.forall_mem_cons, List.not_mem_nil, false_implies, implies_true, and_true]
    exact ⟨longColumn_fits (by decide) tid, intColumn_fits (by decide) mmsi,
      floatColumn_fits (by decide) fmt (by decide) lat,
      floatColumn_fits (by decide) fmt (by decide) lon,
      floatColumn_fits (by decide) fmt (by decide) hdg,
      floatColumn_fits (by decide) fmt (by decide) course,
      floatColumn_fits (by decide) fmt (by decide) sog⟩
  · simp only [List.forall_mem_cons, List.not_mem_nil, false_implies, implies_true, and_true]
    exact ⟨longColumn_fits (by decide) tid, floatColumn_fits (by decide) fmt (by decide) lat,
      floatColumn_fits (by decide) fmt (by decide) lon,
      floatColumn_fits (by decide) fmt (by decide) hdg,
      floatColumn_fits (by decide) fmt (by decide) course,
      floatColumn_fits (by decide) fmt (by decide) sog⟩

theorem myoutAisBasestation_sendable (lat lon : FloatExpr) :
    (myoutAisBasestation fmt tid mmsi lat lon).Sendable := by
  refine queries_sendable mmsi (by decide) ⟨List.cons_ne_nil _ _, by simp, ?_⟩
    ⟨List.cons_ne_nil _ _, by simp, ?_⟩
  · simp only [List.forall_mem_cons, List.not_mem_nil, false_implies, implies_true, and_true]
    exact ⟨longColumn_fits (by decide) tid, intColumn_fits (by decide) mmsi,
      floatColumn_fits (by decide) fmt (by decide) lat,
      floatColumn_fits (by decide) fmt (by decide) lon⟩
  · simp only [List.forall_mem_cons, List.not_mem_nil, false_implies, implies_true, and_true]
    exact ⟨longColumn_fits (by decide) tid, floatColumn_fits (by decide) fmt (by decide) lat,
      floatColumn_fits (by decide) fmt (by decide) lon⟩

theorem myoutAisVesseldata_sendable {name destination : List UInt8} (hname : SixbitText 20 name)
    (hdestination : SixbitText 20 destination) (draught : FloatExpr) (a b c d : ℤ) :
    (myoutAisVesseldata fmt tid mmsi name destination draught a b c d).Sendable := by
  refine queries_sendable mmsi (by decide) ⟨List.cons_ne_nil _ _, by simp, ?_⟩
    ⟨List.cons_ne_nil _ _, by simp, ?_⟩
  · simp only [List.forall_mem_cons, List.not_mem_nil, false_implies, implies_true, and_true]
    exact ⟨longColumn_fits (by decide) tid, intColumn_fits (by decide) mmsi,
      textColumn_fits (by decide) hname, textColumn_fits (by decide) hdestination,
      floatColumn_fits (by decide) fmt (by decide) draught, intColumn_fits (by decide) a,
      intColumn_fits (by decide) b, intColumn_fits (by decide) c, intColumn_fits (by decide) d⟩
  · simp only [List.forall_mem_cons, List.not_mem_nil, false_implies, implies_true, and_true]
    exact ⟨longColumn_fits (by decide) tid, textColumn_fits (by decide) hname,
      textColumn_fits (by decide) hdestination, intColumn_fits (by decide) a,
      intColumn_fits (by decide) b, intColumn_fits (by decide) c, intColumn_fits (by decide) d,
      floatColumn_fits (by decide) fmt (by decide) draught⟩

theorem myoutAisVesseldatab_sendable (a b c d : ℤ) :
    (myoutAisVesseldatab tid mmsi a b c d).Sendable := by
  refine queries_sendable mmsi (by decide) ⟨List.cons_ne_nil _ _, by simp, ?_⟩
    ⟨List.cons_ne_nil _ _, by simp, ?_⟩
  · simp only [List.forall_mem_cons, List.not_mem_nil, false_implies, implies_true, and_true]
    exact ⟨longColumn_fits (by decide) tid, intColumn_fits (by decide) mmsi,
      intColumn_fits (by decide) a, intColumn_fits (by decide) b, intColumn_fits (by decide) c,
      intColumn_fits (by decide) d⟩
  · simp only [List.forall_mem_cons, List.not_mem_nil, false_implies, implies_true, and_true]
    exact ⟨longColumn_fits (by decide) tid, intColumn_fits (by decide) a,
      intColumn_fits (by decide) b, intColumn_fits (by decide) c, intColumn_fits (by decide) d⟩

theorem myoutAisVesselname_sendable {name destination : List UInt8} (hname : SixbitText 20 name)
    (hdestination : SixbitText 20 destination) :
    (myoutAisVesselname tid mmsi name destination).Sendable := by
  refine queries_sendable mmsi (by decide) ⟨List.cons_ne_nil _ _, by simp, ?_⟩
    ⟨List.cons_ne_nil _ _, by simp, ?_⟩
  · simp only [List.forall_mem_cons, List.not_mem_nil, false_implies, implies_true, and_true]
    exact ⟨longColumn_fits (by decide) tid, intColumn_fits (by decide) mmsi,
      textColumn_fits (by decide) hname, textColumn_fits (by decide) hdestination⟩
  · simp only [List.forall_mem_cons, List.not_mem_nil, false_implies, implies_true, and_true]
    exact ⟨longColumn_fits (by decide) tid, textColumn_fits (by decide) hname,
      textColumn_fits (by decide) hdestination⟩

end Fitting

/-! ## What the server reads

The server finds the end of a string by its quote. So what it reads has the structure that
was meant exactly if no string has a quote or a backslash in it that changes where it
ends. -/

theorem sixbitText_nil (len : ℕ) : SixbitText len [] :=
  ⟨Nat.zero_le _, fun _ h => absurd h List.not_mem_nil⟩

/-- A statement says what it says with empty strings exactly if its strings are
plain. -/
theorem sendable_sameStructure {q : Statement} (hq : Sendable q) (hblank : Sendable q.blank) :
    SameStructure (queryText q) (queryText q.blank) q.strings ↔ ∀ s ∈ q.strings, Plain s := by
  rw [hq.2, hblank.2]
  exact sameStructure_iff hq.1

theorem vesseldata_sameStructure_iff (fmt : FloatFormat) (tid mmsi : ℤ)
    {name destination : List UInt8} (hname : SixbitText 20 name)
    (hdestination : SixbitText 20 destination) (draught : FloatExpr) (a b c d : ℤ) :
    (SameStructure
        (queryText (myoutAisVesseldata fmt tid mmsi name destination draught a b c d).ins)
        (queryText (myoutAisVesseldata fmt tid mmsi [] [] draught a b c d).ins)
        [name, destination] ↔ Plain name ∧ Plain destination) ∧
    (SameStructure
        (queryText (myoutAisVesseldata fmt tid mmsi name destination draught a b c d).upd)
        (queryText (myoutAisVesseldata fmt tid mmsi [] [] draught a b c d).upd)
        [name, destination] ↔ Plain name ∧ Plain destination) := by
  have hfull := myoutAisVesseldata_sendable fmt tid mmsi hname hdestination draught a b c d
  have hempty := myoutAisVesseldata_sendable fmt tid mmsi (sixbitText_nil 20) (sixbitText_nil 20)
    draught a b c d
  have hpair : (∀ s ∈ [name, destination], Plain s) ↔ Plain name ∧ Plain destination := by simp
  rw [← hpair]
  exact ⟨sendable_sameStructure hfull.1 hempty.1, sendable_sameStructure hfull.2 hempty.2⟩

theorem vesselname_sameStructure_iff (tid mmsi : ℤ) {name destination : List UInt8}
    (hname : SixbitText 20 name) (hdestination : SixbitText 20 destination) :
    (SameStructure (queryText (myoutAisVesselname tid mmsi name destination).ins)
        (queryText (myoutAisVesselname tid mmsi [] []).ins)
        [name, destination] ↔ Plain name ∧ Plain destination) ∧
    (SameStructure (queryText (myoutAisVesselname tid mmsi name destination).upd)
        (queryText (myoutAisVesselname tid mmsi [] []).upd)
        [name, destination] ↔ Plain name ∧ Plain destination) := by
  have hfull := myoutAisVesselname_sendable tid mmsi hname hdestination
  have hempty := myoutAisVesselname_sendable tid mmsi (sixbitText_nil 20) (sixbitText_nil 20)
  have hpair : (∀ s ∈ [name, destination], Plain s) ↔ Plain name ∧ Plain destination := by simp
  rw [← hpair]
  exact ⟨sendable_sameStructure hfull.1 hempty.1, sendable_sameStructure hfull.2 hempty.2⟩

/-- For every name and destination a frame can carry, each of the four statements with
text in it says what it says with an empty name and an empty destination, and denotes
these two, exactly if they are plain. A name with a quote in it is not only misread: the
statement has other tokens behind it than it should. -/
theorem sql_structure_iff (fmt : FloatFormat) (cfg : Config) (type bufferlen : ℕ) (rbuffer : Frame)
    (receivedT : ℤ) (mmsi : ℕ) (calls : List Call)
    (hcalls : messageCalls cfg type bufferlen rbuffer receivedT mmsi = some calls) :
    (∀ t m name destination draught a b c d,
      Call.myoutAisVesseldata t m name destination draught a b c d ∈ calls →
      (SameStructure
          (queryText (myoutAisVesseldata fmt t m name destination draught a b c d).ins)
          (queryText (myoutAisVesseldata fmt t m [] [] draught a b c d).ins)
          [name, destination] ↔ Plain name ∧ Plain destination) ∧
      (SameStructure
          (queryText (myoutAisVesseldata fmt t m name destination draught a b c d).upd)
          (queryText (myoutAisVesseldata fmt t m [] [] draught a b c d).upd)
          [name, destination] ↔ Plain name ∧ Plain destination)) ∧
    (∀ t m name destination, Call.myoutAisVesselname t m name destination ∈ calls →
      (SameStructure (queryText (myoutAisVesselname t m name destination).ins)
          (queryText (myoutAisVesselname t m [] []).ins)
          [name, destination] ↔ Plain name ∧ Plain destination) ∧
      (SameStructure (queryText (myoutAisVesselname t m name destination).upd)
          (queryText (myoutAisVesselname t m [] []).upd)
          [name, destination] ↔ Plain name ∧ Plain destination)) := by
  have hmessage := messageCalls_messageCall hcalls
  constructor
  · intro t m name destination draught a b c d hmem
    cases hmessage _ hmem with
    | myoutAisVesseldata _ _ _ _ _ _ _ hname hdestination =>
      exact vesseldata_sameStructure_iff fmt t m hname hdestination draught a b c d
  · intro t m name destination hmem
    cases hmessage _ hmem with
    | myoutAisVesselname _ _ hname hdestination =>
      exact vesselname_sameStructure_iff t m hname hdestination

/-- A static report whose name is the one letter `letter`. -/
def namedFrame (letter : ℕ) : Frame :=
  Buffer.splice (Vector.replicate _ 0) 0
    ((toBits 6 5 ++ List.replicate 106 false ++ toBits 6 letter).map byte)

/-- With a database and nothing else. -/
def Config.database : Config := ⟨true, false, false, fun _ => false⟩

theorem mem_of_tail {calls : Option (List Call)} {c : Call} (h : calls.map (·.tail) = some [c]) :
    ∃ cs, calls = some cs ∧ c ∈ cs := by
  obtain ⟨cs, rfl, htail⟩ := Option.map_eq_some_iff.mp h
  refine ⟨cs, rfl, List.mem_of_mem_tail ?_⟩
  rw [htail]
  exact List.mem_singleton_self c

/-- A ship called `M/S NOVA`, on its way to `HELSINKI`. -/
theorem sql_structure_iff_nova :
    ∃ calls, messageCalls .database 5 424 (decoding (pack (nova shortCallsign).layout)).rbuffer 0
        230012345 = some calls ∧
      Call.myoutAisVesseldata 0 230012345 novaName.text novaDestination.text (scaled 65 10)
        100 20 8 7 ∈ calls ∧
      (SameStructure
          (queryText (myoutAisVesseldata .zero 0 230012345 novaName.text novaDestination.text
            (scaled 65 10) 100 20 8 7).ins)
          (queryText (myoutAisVesseldata .zero 0 230012345 [] [] (scaled 65 10) 100 20 8 7).ins)
          [novaName.text, novaDestination.text] ↔
        Plain novaName.text ∧ Plain novaDestination.text) := by
  have hcalls := protodec5_layout .database 0 230012345 (nova shortCallsign)
    (nova_received shortCallsign).holds
  have hname : (nova shortCallsign).read.name = novaName.text := novaName.shown_letters
  have hdestination : (nova shortCallsign).read.destination = novaDestination.text :=
    novaDestination.shown_letters
  have hmem : Call.myoutAisVesseldata 0 230012345 (nova shortCallsign).read.name
      (nova shortCallsign).read.destination (scaled 65 10) 100 20 8 7 ∈
        staticCalls .database 0 230012345 (nova shortCallsign).read :=
    List.mem_cons_of_mem _ (List.mem_cons_self ..)
  rw [hname, hdestination] at hmem
  exact ⟨_, hcalls, hmem, ((sql_structure_iff .zero .database 5 424 _ 0 230012345 _
    hcalls).1 _ _ _ _ _ _ _ _ _ hmem).1⟩

/-- A ship called `"`: the quote ends up in front of the closing one, and the
`INSERT` does not say what it should. -/
theorem quoted_name_changes_insert :
    ∃ calls, messageCalls .database 5 424 (namedFrame 34) 0 0 = some calls ∧
      Call.myoutAisVesseldata 0 0 [34] [] (scaled 0 10) 0 0 0 0 ∈ calls ∧
      ¬ SameStructure
          (queryText (myoutAisVesseldata .zero 0 0 [34] [] (scaled 0 10) 0 0 0 0).ins)
          (queryText (myoutAisVesseldata .zero 0 0 [] [] (scaled 0 10) 0 0 0 0).ins)
          [[34], []] := by
  obtain ⟨calls, hcalls, hmem⟩ := mem_of_tail (show (messageCalls .database 5 424 (namedFrame 34) 0
    0).map (·.tail) = some [.myoutAisVesseldata 0 0 [34] [] (scaled 0 10) 0 0 0 0] by decide +kernel)
  refine ⟨calls, hcalls, hmem, fun h => ?_⟩
  have hiff := (vesseldata_sameStructure_iff .zero ((0 : ℕ) : ℤ) ((0 : ℕ) : ℤ)
    (show SixbitText 20 [34] by decide) (sixbitText_nil 20) (scaled 0 10) ((0 : ℕ) : ℤ)
    ((0 : ℕ) : ℤ) ((0 : ℕ) : ℤ) ((0 : ℕ) : ℤ)).1
  obtain ⟨⟨hquote, -⟩, -⟩ := hiff.mp h
  exact hquote rfl

end Gnuais
