import Mathlib.Data.List.Nodup
import Mathlib.Data.List.Perm.Basic
import Gnuais.Lib.Tables

/-!
# Update or insert

Keeping one row to a key without a unique index: an `UPDATE` of the row is made
first, and an `INSERT` if the `UPDATE` affected no row.

* `Upsert` — the two statements.
* `Upsert.run` — what they do to the tables.
* `OneRow` — at most one row has the key, and each of its columns is as the
  latest of the upserts that write the column left it.

An `UPDATE` that finds the row and does not change it affects no row. So this
keeps one row for as long as that does not happen (`oneRow_run`), and makes one
more whenever it does (`length_rowsOf_unchanged`).
-/

namespace Sql

/-- The statements for the row in which `key` has a value: they write the same
columns, except that only the `INSERT` writes the key. -/
structure Upsert where
  /-- the table of both statements -/
  table : List UInt8
  /-- the column that rows are told apart by -/
  key : List UInt8
  /-- and the value in it -/
  id : Number
  /-- what the `INSERT` writes -/
  inserted : List (List UInt8 × Value)
  /-- what the `UPDATE` writes -/
  updated : List (List UInt8 × Value)
  /-- a row that is inserted has the key -/
  key_mem : (key, .number id) ∈ inserted
  /-- no column is written twice -/
  nodup : (inserted.map (·.1)).Nodup
  /-- both write the same columns -/
  perm : (inserted.map (·.1)).Perm (key :: updated.map (·.1))
  /-- the server can tell where the columns end -/
  readable : ascii "WHERE" ∉ updated.map (·.1)

namespace Upsert

def insert (u : Upsert) : Statement := .insert u.table u.inserted

def update (u : Upsert) : Statement := .update u.table u.updated u.key u.id

def columns (u : Upsert) : List (List UInt8) := u.inserted.map (·.1)

theorem mem_columns (u : Upsert) {c : List UInt8} :
    c ∈ u.columns ↔ c = u.key ∨ c ∈ u.updated.map (·.1) :=
  u.perm.mem_iff.trans List.mem_cons

theorem nodup_updated (u : Upsert) :
    u.key ∉ u.updated.map (·.1) ∧ (u.updated.map (·.1)).Nodup :=
  List.nodup_cons.mp (u.perm.nodup_iff.mp u.nodup)

end Upsert

section

variable {δ : Type} (S : Server δ)

/-! ## Rows

A row is a function from columns to what is kept in them. The rows with a key are those an
`UPDATE` finds. -/

/-- A column that is not written stays. -/
theorem write_of_not_mem {table c : List UInt8} {values : List (List UInt8 × Value)}
    (hc : c ∉ values.map (·.1)) (r : Row δ) : S.write table values r c = r c := by
  induction values generalizing r with
  | nil => rfl
  | cons a values ih =>
    rw [List.map_cons, List.mem_cons, not_or] at hc
    rw [Server.write, List.foldl_cons]
    exact (ih hc.2 _).trans (Function.update_of_ne hc.1 _ _)

/-- A column that is written has its value. -/
theorem write_of_mem {table : List UInt8} {values : List (List UInt8 × Value)}
    (hnodup : (values.map (·.1)).Nodup) {a : List UInt8 × Value} (ha : a ∈ values) (r : Row δ) :
    S.write table values r a.1 = some (S.stored table a.1 a.2) := by
  induction values generalizing r with
  | nil => exact absurd ha List.not_mem_nil
  | cons b values ih =>
    rw [List.map_cons, List.nodup_cons] at hnodup
    rw [Server.write, List.foldl_cons]
    rcases List.mem_cons.mp ha with rfl | ha
    · exact (write_of_not_mem S hnodup.1 _).trans (Function.update_self ..)
    · exact ih hnodup.2 ha _

/-- A row that says all of it already is not changed. -/
theorem write_unchanged {table : List UInt8} {values : List (List UInt8 × Value)} {r : Row δ}
    (h : ¬ S.Changes table values r) : S.write table values r = r := by
  funext c
  by_cases hc : c ∈ values.map (·.1)
  · obtain ⟨a, ha, rfl⟩ := List.mem_map.mp hc
    by_contra hne
    exact h ⟨a, ha, hne⟩
  · exact write_of_not_mem S hc r

/-- It changes if some column is different. -/
theorem changes_iff {table : List UInt8} {values : List (List UInt8 × Value)}
    (hnodup : (values.map (·.1)).Nodup) {r : Row δ} :
    S.Changes table values r ↔ ∃ a ∈ values, r a.1 ≠ some (S.stored table a.1 a.2) := by
  constructor
  · rintro ⟨a, ha, hne⟩
    rw [write_of_mem S hnodup ha] at hne
    exact ⟨a, ha, hne.symm⟩
  · rintro ⟨a, ha, hne⟩
    refine ⟨a, ha, ?_⟩
    rw [write_of_mem S hnodup ha]
    exact hne.symm

namespace Upsert

variable (u : Upsert)

/-- The key as the table keeps it. -/
def datum : δ := S.stored u.table u.key (.number u.id)

/-- The row an `INSERT` makes. -/
def newRow : Row δ := S.write u.table u.inserted fun _ => none

theorem newRow_key : u.newRow S u.key = some (u.datum S) :=
  write_of_mem S u.nodup u.key_mem _

end Upsert

variable [DecidableEq δ]

/-- The rows with a key. -/
def rowsOf (key : List UInt8) (d : δ) (rows : List (Row δ)) : List (Row δ) :=
  rows.filter fun r => r key = some d

theorem rowsOf_concat (key : List UInt8) (d : δ) (rows : List (Row δ)) (r : Row δ) :
    rowsOf key d (rows ++ [r]) = rowsOf key d rows ++ if r key = some d then [r] else [] := by
  rw [rowsOf, List.filter_append, rowsOf, List.filter_singleton, Bool.cond_decide]

/-! ## What an upsert does

There are two cases, by whether the `UPDATE` changes a row. It counts the rows that it
changes, which is what makes the second case larger than it should be. -/

namespace Upsert

variable (u : Upsert)

/-- The statements as the source of the rule makes them: `INSERT` if `UPDATE`
affected no row. -/
def run (db : Tables δ) : Tables δ :=
  let updated := u.update.run S db
  if updated.2 > 0 then updated.1 else (u.insert.run S updated.1).1

/-- What an `UPDATE` makes of a row. -/
def touch (r : Row δ) : Row δ :=
  if r u.key = some (u.datum S) then S.write u.table u.updated r else r

theorem touch_key (r : Row δ) : u.touch S r u.key = r u.key := by
  rw [touch]
  split
  · exact write_of_not_mem S u.nodup_updated.1 r
  · rfl

theorem rowsOf_touch (d : δ) (rows : List (Row δ)) :
    rowsOf u.key d (rows.map (u.touch S)) = (rowsOf u.key d rows).map (u.touch S) := by
  rw [rowsOf, List.filter_map, rowsOf]
  congr 1
  refine List.filter_congr fun r _ => ?_
  rw [Function.comp_apply, u.touch_key]

/-- The other tables stay as they are. -/
theorem run_of_ne {table : List UInt8} (h : table ≠ u.table) (db : Tables δ) :
    u.run S db table = db table := by
  have hupdate : (u.update.run S db).1 table = db table := Function.update_of_ne h _ _
  rw [run]
  split
  · exact hupdate
  · exact (Function.update_of_ne h _ _).trans hupdate

/-- An `UPDATE` that changes some row with the key is all that is made. -/
theorem run_changed {db : Tables δ} {r : Row δ} (hr : r ∈ rowsOf u.key (u.datum S) (db u.table))
    (hchanges : S.Changes u.table u.updated r) :
    u.run S db u.table = (db u.table).map (u.touch S) := by
  have hcount : (u.update.run S db).2 > 0 := by
    obtain ⟨hmem, hkey⟩ := List.mem_filter.mp hr
    refine List.countP_pos_iff.mpr ⟨r, hmem, ?_⟩
    exact decide_eq_true ⟨of_decide_eq_true hkey, hchanges⟩
  rw [run, if_pos hcount]
  exact Function.update_self ..

/-- An `UPDATE` that changes no row with the key is followed by an `INSERT`. -/
theorem run_unchanged {db : Tables δ}
    (h : ∀ r ∈ rowsOf u.key (u.datum S) (db u.table), ¬ S.Changes u.table u.updated r) :
    u.run S db u.table = db u.table ++ [u.newRow S] := by
  have hcount : ¬ (u.update.run S db).2 > 0 := by
    intro hpos
    obtain ⟨r, hmem, hr⟩ := List.countP_pos_iff.mp hpos
    obtain ⟨hkey, hchanges⟩ := of_decide_eq_true hr
    exact h r (List.mem_filter.mpr ⟨hmem, decide_eq_true hkey⟩) hchanges
  have hsame : (u.update.run S db).1 u.table = db u.table := by
    refine (Function.update_self ..).trans ?_
    refine (List.map_congr_left fun r hr => ?_).trans (List.map_id _)
    show (if r u.key = some (u.datum S) then S.write u.table u.updated r else r) = r
    split_ifs with hkey
    · exact write_unchanged S (h r (List.mem_filter.mpr ⟨hr, decide_eq_true hkey⟩))
    · rfl
  rw [run, if_neg hcount]
  refine (Function.update_self ..).trans ?_
  rw [hsame]
  rfl

/-- The rows with another key stay as they are. -/
theorem rowsOf_run_of_ne {d : δ} (hd : d ≠ u.datum S) (db : Tables δ) :
    rowsOf u.key d (u.run S db u.table) = rowsOf u.key d (db u.table) := by
  by_cases h : ∃ r ∈ rowsOf u.key (u.datum S) (db u.table), S.Changes u.table u.updated r
  · obtain ⟨r, hr, hchanges⟩ := h
    rw [u.run_changed S hr hchanges, u.rowsOf_touch]
    refine (List.map_congr_left fun r hr => ?_).trans (List.map_id _)
    have hkey : r u.key = some d := of_decide_eq_true (List.mem_filter.mp hr).2
    exact if_neg fun h => hd (Option.some.inj (hkey.symm.trans h))
  · have hnone : ∀ r ∈ rowsOf u.key (u.datum S) (db u.table), ¬ S.Changes u.table u.updated r :=
      fun r hr hchanges => h ⟨r, hr, hchanges⟩
    have hnew : ¬ u.newRow S u.key = some d := by
      rw [u.newRow_key]
      exact fun h => hd (Option.some.inj h).symm
    rw [u.run_unchanged S hnone, rowsOf_concat, if_neg hnew, List.append_nil]

/-- An `UPDATE` that changes the row there is. -/
theorem rowsOf_run_changed {db : Tables δ} {r : Row δ}
    (hrows : rowsOf u.key (u.datum S) (db u.table) = [r])
    (hchanges : S.Changes u.table u.updated r) :
    rowsOf u.key (u.datum S) (u.run S db u.table) = [S.write u.table u.updated r] := by
  have hr : r ∈ rowsOf u.key (u.datum S) (db u.table) := by
    rw [hrows]
    exact List.mem_singleton_self r
  have hkey : r u.key = some (u.datum S) := of_decide_eq_true (List.mem_filter.mp hr).2
  rw [u.run_changed S hr hchanges, u.rowsOf_touch, hrows, List.map_singleton, touch, if_pos hkey]

/-- An `UPDATE` that changes no row: one more than before. -/
theorem rowsOf_run_unchanged {db : Tables δ}
    (h : ∀ r ∈ rowsOf u.key (u.datum S) (db u.table), ¬ S.Changes u.table u.updated r) :
    rowsOf u.key (u.datum S) (u.run S db u.table) =
      rowsOf u.key (u.datum S) (db u.table) ++ [u.newRow S] := by
  rw [u.run_unchanged S h, rowsOf_concat, if_pos (u.newRow_key S)]

/-! ## What a row should hold

Columns are written by different upserts: a row has the position of one and the name of
another. Each column is as the last one that wrote it left it. -/

/-- Whether the upsert is for the row with a key. -/
def For (table key : List UInt8) (d : δ) : Prop := u.table = table ∧ u.key = key ∧ u.datum S = d

instance (table key : List UInt8) (d : δ) : Decidable (u.For S table key d) :=
  inferInstanceAs (Decidable (_ ∧ _ ∧ _))

/-- One of the statements writes that to the column. -/
def Wrote (c : List UInt8) (x : Option δ) : Prop :=
  ∃ a, (a ∈ u.inserted ∨ a ∈ u.updated) ∧ a.1 = c ∧ x = some (S.stored u.table c a.2)

end Upsert

/-- The latest upsert for the row that writes the column; the oldest of `us` comes
first. -/
def latest (us : List Upsert) (table key : List UInt8) (d : δ) (c : List UInt8) : Option Upsert :=
  us.reverse.find? fun u => u.For S table key d ∧ c ∈ u.columns

/-- Every column is as the latest upsert that writes it left it. -/
def HoldsLatest (us : List Upsert) (table key : List UInt8) (d : δ) (r : Row δ) : Prop :=
  ∀ c, match latest S us table key d c with
    | some u => u.Wrote S c (r c)
    | none => r c = none

/-- At most one row has the key, and it is up to date. -/
structure OneRow (us : List Upsert) (db : Tables δ) (table key : List UInt8) (d : δ) : Prop where
  /-- there is no second row -/
  length_le : (rowsOf key d (db table)).length ≤ 1
  /-- and the row is as it should be -/
  latest : ∀ r ∈ rowsOf key d (db table), HoldsLatest S us table key d r

/-- When an upsert keeps that: its `UPDATE` changes the row there is, and if there
is none, its `INSERT` writes every column that was ever written for the row. -/
structure Upsert.Keeps (u : Upsert) (us : List Upsert) (db : Tables δ) : Prop where
  /-- the row that is there is changed by the `UPDATE` -/
  changes : ∀ r ∈ rowsOf u.key (u.datum S) (db u.table),
    ∃ a ∈ u.updated, r a.1 ≠ some (S.stored u.table a.1 a.2)
  /-- a row that is inserted lacks nothing that was written before -/
  complete : rowsOf u.key (u.datum S) (db u.table) = [] →
    ∀ u' ∈ us, u'.For S u.table u.key (u.datum S) → ∀ c ∈ u'.columns, c ∈ u.columns

variable {S}

theorem keeps_nil (u : Upsert) : u.Keeps S [] fun _ => [] :=
  ⟨fun _ hr => absurd hr List.not_mem_nil, fun _ _ hu => absurd hu List.not_mem_nil⟩

theorem latest_concat (us : List Upsert) (u : Upsert) (table key : List UInt8) (d : δ)
    (c : List UInt8) :
    latest S (us ++ [u]) table key d c =
      if u.For S table key d ∧ c ∈ u.columns then some u else latest S us table key d c := by
  rw [latest, List.reverse_append, List.reverse_singleton, List.singleton_append, List.find?_cons]
  by_cases h : u.For S table key d ∧ c ∈ u.columns
  · rw [decide_eq_true h, if_pos h]
  · rw [decide_eq_false h, if_neg h]
    rfl

theorem latest_some {us : List Upsert} {u : Upsert} {table key : List UInt8} {d : δ}
    {c : List UInt8} (h : latest S us table key d c = some u) :
    u ∈ us ∧ u.For S table key d ∧ c ∈ u.columns := by
  rw [latest] at h
  have hu := List.find?_some h
  exact ⟨List.mem_reverse.mp (List.mem_of_find?_eq_some h), of_decide_eq_true hu⟩

theorem latest_of_not_for {us : List Upsert} {u : Upsert} {table key : List UInt8} {d : δ}
    (h : ¬ u.For S table key d) (c : List UInt8) :
    latest S (us ++ [u]) table key d c = latest S us table key d c := by
  rw [latest_concat, if_neg fun h' => h h'.1]

/-- An upsert for another row. -/
theorem OneRow.of_rows_eq {us : List Upsert} {u : Upsert} {db db' : Tables δ}
    {table key : List UInt8} {d : δ} (h : OneRow S us db table key d)
    (hfor : ¬ u.For S table key d) (hrows : rowsOf key d (db' table) = rowsOf key d (db table)) :
    OneRow S (us ++ [u]) db' table key d := by
  refine ⟨by rw [hrows]; exact h.length_le, fun r hr c => ?_⟩
  rw [hrows] at hr
  rw [latest_of_not_for hfor]
  exact h.latest r hr c

/-- A statement that takes rows away. -/
theorem OneRow.sublist {us : List Upsert} {db db' : Tables δ} {table key : List UInt8} {d : δ}
    (h : OneRow S us db table key d) (hsub : (db' table).Sublist (db table)) :
    OneRow S us db' table key d := by
  have hrows := hsub.filter fun r : Row δ => r key = some d
  exact ⟨hrows.length_le.trans h.length_le, fun r hr => h.latest r (hrows.subset hr)⟩

theorem delete_sublist (table column : List UInt8) (bound : Number) (db : Tables δ)
    (table' : List UInt8) :
    (((Statement.delete table column bound).run S db).1 table').Sublist (db table') := by
  by_cases h : table' = table
  · subst h
    simp only [Statement.run, Function.update_self]
    exact List.filter_sublist
  · simp only [Statement.run, Function.update_of_ne h]
    exact List.Sublist.refl _

theorem oneRow_nil (table key : List UInt8) (d : δ) : OneRow S [] (fun _ => []) table key d :=
  ⟨Nat.zero_le _, fun _ hr => absurd hr List.not_mem_nil⟩

/-- The row an `INSERT` makes is up to date if nothing else was ever written. -/
theorem holdsLatest_newRow {us : List Upsert} {u : Upsert}
    (hcomplete : ∀ u' ∈ us, u'.For S u.table u.key (u.datum S) → ∀ c ∈ u'.columns, c ∈ u.columns) :
    HoldsLatest S (us ++ [u]) u.table u.key (u.datum S) (u.newRow S) := by
  intro c
  rw [latest_concat]
  by_cases hc : c ∈ u.columns
  · rw [if_pos ⟨⟨rfl, rfl, rfl⟩, hc⟩]
    obtain ⟨a, ha, rfl⟩ := List.mem_map.mp hc
    exact ⟨a, .inl ha, rfl, write_of_mem S u.nodup ha _⟩
  · rw [if_neg fun h => hc h.2]
    cases hlatest : latest S us u.table u.key (u.datum S) c with
    | none => exact write_of_not_mem S hc _
    | some u' =>
      obtain ⟨hmem, hfor, hc'⟩ := latest_some hlatest
      exact absurd (hcomplete u' hmem hfor c hc') hc

/-- The row an `UPDATE` leaves is up to date if it was. -/
theorem holdsLatest_write {us : List Upsert} {u : Upsert} {r : Row δ}
    (hkey : r u.key = some (u.datum S)) (h : HoldsLatest S us u.table u.key (u.datum S) r) :
    HoldsLatest S (us ++ [u]) u.table u.key (u.datum S) (S.write u.table u.updated r) := by
  intro c
  rw [latest_concat]
  by_cases hc : c ∈ u.columns
  · rw [if_pos ⟨⟨rfl, rfl, rfl⟩, hc⟩]
    rcases u.mem_columns.mp hc with rfl | hc
    · refine ⟨_, .inl u.key_mem, rfl, ?_⟩
      rw [write_of_not_mem S u.nodup_updated.1, hkey]
      rfl
    · obtain ⟨a, ha, rfl⟩ := List.mem_map.mp hc
      exact ⟨a, .inr ha, rfl, write_of_mem S u.nodup_updated.2 ha _⟩
  · rw [if_neg fun h => hc h.2, write_of_not_mem S fun hmem => hc (u.mem_columns.mpr (.inr hmem))]
    exact h c

/-- An upsert that meets the condition keeps one row, up to date, to every key. -/
theorem oneRow_run {us : List Upsert} {u : Upsert} {db : Tables δ} (hkeeps : u.Keeps S us db)
    {table : List UInt8} (h : ∀ d, OneRow S us db table u.key d) (d : δ) :
    OneRow S (us ++ [u]) (u.run S db) table u.key d := by
  by_cases htable : table = u.table
  swap
  · exact (h d).of_rows_eq (fun hfor => htable hfor.1.symm) (by rw [u.run_of_ne S htable])
  subst htable
  by_cases hd : d = u.datum S
  swap
  · exact (h d).of_rows_eq (fun hfor => hd hfor.2.2.symm) (u.rowsOf_run_of_ne S hd db)
  subst hd
  cases hrows : rowsOf u.key (u.datum S) (db u.table) with
  | nil =>
    -- no row for the datum: `UPDATE` affects none, and `INSERT` makes the first one
    have hnone : ∀ r ∈ rowsOf u.key (u.datum S) (db u.table), ¬ S.Changes u.table u.updated r := by
      intro r hr
      rw [hrows] at hr
      exact absurd hr List.not_mem_nil
    have hafter := u.rowsOf_run_unchanged S hnone
    rw [hrows, List.nil_append] at hafter
    refine ⟨by rw [hafter]; exact Nat.le_refl 1, fun r hr => ?_⟩
    rw [hafter] at hr
    obtain rfl := List.mem_singleton.mp hr
    exact holdsLatest_newRow (hkeeps.complete hrows)
  | cons r rows =>
    have hlen := (h (u.datum S)).length_le
    rw [hrows, List.length_cons] at hlen
    obtain rfl := List.length_eq_zero_iff.mp (Nat.le_zero.mp (Nat.le_of_succ_le_succ hlen))
    have hr : r ∈ rowsOf u.key (u.datum S) (db u.table) := by
      rw [hrows]
      exact List.mem_singleton_self r
    have hkey : r u.key = some (u.datum S) := of_decide_eq_true (List.mem_filter.mp hr).2
    -- one row for it, and its contents change: `UPDATE` affects it, and nothing is
    -- inserted
    have hafter := u.rowsOf_run_changed S hrows
      ((changes_iff S u.nodup_updated.2).mpr (hkeeps.changes r hr))
    refine ⟨by rw [hafter]; exact Nat.le_refl 1, fun r' hr' => ?_⟩
    rw [hafter] at hr'
    obtain rfl := List.mem_singleton.mp hr'
    exact holdsLatest_write hkey ((h _).latest r hr)

/-- An upsert whose `UPDATE` changes none of the rows there are makes one more. -/
theorem length_rowsOf_unchanged {u : Upsert} {db : Tables δ}
    (h : ∀ r ∈ rowsOf u.key (u.datum S) (db u.table), ∀ a ∈ u.updated,
      r a.1 = some (S.stored u.table a.1 a.2)) :
    (rowsOf u.key (u.datum S) (u.run S db u.table)).length =
      (rowsOf u.key (u.datum S) (db u.table)).length + 1 := by
  rw [u.rowsOf_run_unchanged S, List.length_append, List.length_singleton]
  intro r hr hchanges
  obtain ⟨a, ha, hne⟩ := (changes_iff S u.nodup_updated.2).mp hchanges
  exact hne (h r hr a ha)

end

end Sql
