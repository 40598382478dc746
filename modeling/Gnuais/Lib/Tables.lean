import Mathlib.Logic.Function.Basic
import Gnuais.Lib.Buffer
import Gnuais.Lib.Statement

/-!
# Tables, and what statements do to them

* `parse` — the statement that a list of tokens is, if it is one of the
  fragment.
* `Server` — a server: how a column keeps a value, how `<` compares, and what a
  text outside the fragment does.
* `Statement.run` — the tables after a statement, with the number of rows it
  affected. An `UPDATE` counts the rows whose values it changes, not those it
  finds.

A well-formed statement is read back from its tokens (`parse_tokens`), so a
server runs it when it gets its text (`query_text`).
-/

namespace Sql

open Buffer

/-! ## Reading a statement

The server reads tokens. A comma in a list of tokens is never part of a value, so lists
are taken apart at their commas. -/

/-- What stands in front of a token, and what stands behind it. -/
def upTo (t : Token) : List Token → Option (List Token × List Token)
  | [] => none
  | x :: xs => if x = t then some ([], xs) else (upTo t xs).map fun p => (x :: p.1, p.2)

/-- What is in front of the first such token. -/
theorem upTo_append {t : Token} {xs : List Token} (h : t ∉ xs) (rest : List Token) :
    upTo t (xs ++ t :: rest) = some (xs, rest) := by
  induction xs with
  | nil => exact if_pos rfl
  | cons x xs ih =>
    rw [List.mem_cons, not_or] at h
    rw [List.cons_append, upTo, if_neg (Ne.symm h.1), ih h.2]
    rfl

/-- A name. -/
def parseName : List Token → Option (List UInt8)
  | [.word name] => some name
  | _ => none

/-- A number, with its sign. -/
def parseNumber : List Token → Option Number
  | [.word (d :: ds)] => if IsDigit d then some ⟨false, d :: ds⟩ else none
  | [.punct 45, .word (d :: ds)] => if IsDigit d then some ⟨true, d :: ds⟩ else none
  | _ => none

/-- A number or a string. -/
def parseValue : List Token → Option Value
  | [.string s] => some (.string s)
  | ts => (parseNumber ts).map .number

/-- A name, an equals sign and a value. -/
def parseAssign : List Token → Option (List UInt8 × Value)
  | .word name :: .punct 61 :: ts => (parseValue ts).map fun v => (name, v)
  | _ => none

/-- `INSERT`, from behind its verb. -/
def parseInsert : List Token → Option Statement
  | .word into :: .word table :: .punct 40 :: ts => do
    let (names, ts) ← upTo (.punct 41) ts
    let (verb, ts) ← upTo (.punct 40) ts
    let (values, ts) ← upTo (.punct 41) ts
    let names ← (names.splitOn (.punct 44)).mapM parseName
    let values ← (values.splitOn (.punct 44)).mapM parseValue
    if into = ascii "INTO" ∧ verb = [keyword "VALUES"] ∧ ts = [] ∧ names.length = values.length then
      some (.insert table (names.zip values))
    else none
  | _ => none

/-- `UPDATE`, from behind its verb. -/
def parseUpdate : List Token → Option Statement
  | .word table :: .word set :: ts => do
    let (assignments, ts) ← upTo (keyword "WHERE") ts
    let (key, ts) ← upTo (.punct 61) ts
    let values ← (assignments.splitOn (.punct 44)).mapM parseAssign
    let key ← parseName key
    let id ← parseNumber ts
    if set = ascii "SET" then some (.update table values key id) else none
  | _ => none

/-- `DELETE`, from behind its verb. -/
def parseDelete : List Token → Option Statement
  | .word from' :: .word table :: .word where' :: .word column :: .punct 60 :: ts => do
    let bound ← parseNumber ts
    if from' = ascii "FROM" ∧ where' = ascii "WHERE" then some (.delete table column bound) else none
  | _ => none

/-- A statement. -/
def parse : List Token → Option Statement
  | .word verb :: ts =>
    if verb = ascii "INSERT" then parseInsert ts
    else if verb = ascii "UPDATE" then parseUpdate ts
    else if verb = ascii "DELETE" then parseDelete ts
    else none
  | _ => none

/-- No column in front of `WHERE` is called that. -/
def Statement.Readable : Statement → Prop
  | .update _ values _ _ => ascii "WHERE" ∉ values.map (·.1)
  | _ => True

theorem parseNumber_tokens {n : Number} (hn : n.WellFormed) : parseNumber n.tokens = some n := by
  obtain ⟨negative, digits⟩ := n
  obtain ⟨d, ds, rfl, hd, -⟩ := hn
  cases negative with
  | false => exact if_pos hd
  | true => exact if_pos hd

theorem parseValue_tokens {v : Value} (hv : v.WellFormed) : parseValue v.tokens = some v := by
  cases v with
  | string s => rfl
  | number n =>
    have hn := parseNumber_tokens (n := n) hv
    obtain ⟨negative, digits⟩ := n
    cases negative with
    | false => exact congrArg (Option.map Value.number) hn
    | true => exact congrArg (Option.map Value.number) hn

theorem parseAssign_tokens {a : List UInt8 × Value} (ha : a.2.WellFormed) :
    parseAssign (assignTokens a) = some a := by
  rw [assignTokens, parseAssign, parseValue_tokens ha]
  rfl

/-- A value has no commas, brackets or keywords of its own in it. -/
theorem not_mem_value {v : Value} (hv : v.WellFormed) {t : Token}
    (ht : t = .punct 44 ∨ t = .punct 41 ∨ t = keyword "WHERE") : t ∉ v.tokens := by
  cases v with
  | string s => rcases ht with rfl | rfl | rfl <;> exact fun h => by cases List.mem_singleton.mp h
  | number n =>
    have hword : t ≠ .word n.digits := by
      rcases ht with rfl | rfl | rfl
      · exact Token.noConfusion
      · exact Token.noConfusion
      · intro h
        obtain ⟨d, ds, hdigits, hd, -⟩ := hv
        have hhead := congrArg List.head? ((Token.word.inj h).trans hdigits)
        obtain rfl : (87 : UInt8) = d := Option.some.inj hhead
        exact absurd hd (by decide)
    have hminus : t ≠ .punct 45 := by
      rcases ht with rfl | rfl | rfl <;> decide
    rw [Value.tokens, Number.tokens]
    cases n.negative with
    | false => exact fun h => hword (List.mem_singleton.mp h)
    | true =>
      intro h
      rcases List.mem_cons.mp h with h | h
      · exact hminus h
      · exact hword (List.mem_singleton.mp h)

theorem not_mem_assign {a : List UInt8 × Value} (ha : a.2.WellFormed) {t : Token}
    (ht : t = .punct 44 ∨ t = keyword "WHERE" ∧ a.1 ≠ ascii "WHERE") : t ∉ assignTokens a := by
  have hname : t ≠ .word a.1 ∧ t ≠ .punct 61 ∧ t ∉ a.2.tokens := by
    rcases ht with rfl | ⟨rfl, hne⟩
    · exact ⟨Token.noConfusion, by decide, not_mem_value ha (.inl rfl)⟩
    · exact ⟨fun h => hne (Token.word.inj h).symm, Token.noConfusion,
        not_mem_value ha (.inr (.inr rfl))⟩
  rw [assignTokens, List.mem_cons, List.mem_cons, not_or, not_or]
  exact hname

theorem not_mem_intercalate {α : Type} {sep : List Token} {t : Token} {tokens : α → List Token}
    {xs : List α} (hsep : t ∉ sep) (h : ∀ x ∈ xs, t ∉ tokens x) :
    t ∉ List.intercalate sep (xs.map tokens) := by
  induction xs with
  | nil => exact List.not_mem_nil
  | cons x xs ih =>
    have hx := h x (List.mem_cons_self ..)
    have hrest := ih fun y hy => h y (List.mem_cons_of_mem _ hy)
    cases xs with
    | nil => rwa [List.map_singleton, List.intercalate_singleton]
    | cons y xs =>
      rw [List.map_cons, List.map_cons, List.intercalate_cons_cons, List.mem_append,
        List.mem_append, not_or, not_or]
      exact ⟨⟨hx, hsep⟩, hrest⟩

/-- Pieces without commas, with commas between, are read piece by piece. -/
theorem mapM_splitOn {α β : Type} (tokens : α → List Token) (p : List Token → Option β) (f : α → β)
    {xs : List α} (hne : xs ≠ []) (hcomma : ∀ x ∈ xs, Token.punct 44 ∉ tokens x)
    (hp : ∀ x ∈ xs, p (tokens x) = some (f x)) :
    ((List.intercalate [.punct 44] (xs.map tokens)).splitOn (.punct 44)).mapM p =
      some (xs.map f) := by
  rw [List.splitOn_intercalate _ (List.forall_mem_map.mpr hcomma)
    fun hnil => hne (List.map_eq_nil_iff.mp hnil), List.mapM_map]
  exact mapM_some hp

theorem parse_insert_verb (ts : List Token) : parse (keyword "INSERT" :: ts) = parseInsert ts := by
  rw [keyword, parse, if_pos rfl]

theorem parse_update_verb (ts : List Token) : parse (keyword "UPDATE" :: ts) = parseUpdate ts := by
  rw [keyword, parse, if_neg (by decide), if_pos rfl]

theorem parse_delete_verb (ts : List Token) : parse (keyword "DELETE" :: ts) = parseDelete ts := by
  rw [keyword, parse, if_neg (by decide), if_neg (by decide), if_pos rfl]

theorem parse_insert {table : List UInt8} {values : List (List UInt8 × Value)}
    (hwf : WellFormed values) :
    parse (Statement.insert table values).tokens = some (.insert table values) := by
  have hnoname : ∀ {c : UInt8} {name : List UInt8}, Token.punct c ∉ [Token.word name] :=
    fun h => Token.noConfusion (List.mem_singleton.mp h)
  have hnames : Token.punct 41 ∉
      List.intercalate [.punct 44] (values.map fun a => [Token.word a.1]) :=
    not_mem_intercalate (by decide) fun _ _ => hnoname
  have hvalues : Token.punct 41 ∉ List.intercalate [.punct 44] (values.map (·.2.tokens)) :=
    not_mem_intercalate (by decide) fun a ha => not_mem_value (hwf.2 a ha).2 (.inr (.inl rfl))
  have hreadNames := mapM_splitOn (fun a : List UInt8 × Value => [Token.word a.1]) parseName (·.1)
    hwf.1 (fun _ _ => hnoname) fun _ _ => rfl
  have hreadValues := mapM_splitOn (fun a : List UInt8 × Value => a.2.tokens) parseValue (·.2)
    hwf.1 (fun a ha => not_mem_value (hwf.2 a ha).2 (.inl rfl))
    fun a ha => parseValue_tokens (hwf.2 a ha).2
  have hverb := upTo_append (show Token.punct 40 ∉ [keyword "VALUES"] by decide)
    (List.intercalate [.punct 44] (values.map (·.2.tokens)) ++ [.punct 41])
  rw [List.singleton_append] at hverb
  have hzip : (values.map (·.1)).zip (values.map (·.2)) = values := by
    rw [List.zip_map']
    exact List.map_id _
  rw [tokens_insert, parse_insert_verb, keyword, parseInsert, upTo_append hnames]
  simp only [Option.bind_eq_bind, Option.bind_some, hverb, upTo_append hvalues, hreadNames,
    hreadValues, hzip, List.length_map, and_self, if_true]

theorem parse_update {table key : List UInt8} {values : List (List UInt8 × Value)} {id : Number}
    (hwf : WellFormed values) (hid : id.WellFormed) (hwhere : ascii "WHERE" ∉ values.map (·.1)) :
    parse (Statement.update table values key id).tokens = some (.update table values key id) := by
  have hassigns : keyword "WHERE" ∉ List.intercalate [.punct 44] (values.map assignTokens) :=
    not_mem_intercalate (by decide) fun a ha => not_mem_assign (hwf.2 a ha).2
      (.inr ⟨rfl, fun h => hwhere (List.mem_map.mpr ⟨a, ha, h⟩)⟩)
  have hread := mapM_splitOn assignTokens parseAssign (fun a => a) hwf.1
    (fun a ha => not_mem_assign (hwf.2 a ha).2 (.inl rfl))
    fun a ha => parseAssign_tokens (hwf.2 a ha).2
  have hkey := upTo_append (show Token.punct 61 ∉ [Token.word key] from
    fun h => Token.noConfusion (List.mem_singleton.mp h)) id.tokens
  rw [List.singleton_append] at hkey
  rw [tokens_update, parse_update_verb, keyword, parseUpdate, upTo_append hassigns]
  simp only [Option.bind_eq_bind, Option.bind_some, hkey, hread, List.map_id', parseName,
    parseNumber_tokens hid, if_true]

theorem parse_delete {table column : List UInt8} {bound : Number} (hbound : bound.WellFormed) :
    parse (Statement.delete table column bound).tokens = some (.delete table column bound) := by
  rw [Statement.tokens, parse_delete_verb, keyword, keyword, parseDelete, parseNumber_tokens hbound]
  simp only [Option.bind_eq_bind, Option.bind_some, and_self, if_true]

/-- A statement is read back from its tokens. -/
theorem parse_tokens {q : Statement} (hq : q.WellFormed) (hread : q.Readable) :
    parse q.tokens = some q := by
  cases q with
  | insert table values => exact parse_insert hq.2
  | update table values key id => exact parse_update hq.2.1 hq.2.2.2 hread
  | delete table column bound => exact parse_delete hq.2.2

/-! ## Tables

What a column keeps of a value is left to the server: it may round numbers and cut strings
off. So is the order of what it keeps. -/

/-- A row: what it has in a column, `none` for `NULL`. -/
abbrev Row (δ : Type) := List UInt8 → Option δ

/-- The rows of each table. -/
abbrev Tables (δ : Type) := List UInt8 → List (Row δ)

/-- A server. -/
structure Server (δ : Type) where
  /-- what a column of a table keeps of a value -/
  stored : List UInt8 → List UInt8 → Value → δ
  /-- `<` -/
  below : δ → δ → Bool
  /-- what a text outside the fragment does, if it does not fail -/
  other : List UInt8 → Tables δ → Option (Tables δ × ℕ)

section Run

variable {δ : Type} [DecidableEq δ] (S : Server δ)

/-- A row with some columns written. -/
def Server.write (table : List UInt8) (values : List (List UInt8 × Value)) (r : Row δ) : Row δ :=
  values.foldl (fun r a => Function.update r a.1 (some (S.stored table a.1 a.2))) r

/-- Whether that changes the row. -/
def Server.Changes (table : List UInt8) (values : List (List UInt8 × Value)) (r : Row δ) : Prop :=
  ∃ a ∈ values, S.write table values r a.1 ≠ r a.1

instance (table : List UInt8) (values : List (List UInt8 × Value)) (r : Row δ) :
    Decidable (S.Changes table values r) :=
  List.decidableBEx (fun a : List UInt8 × Value => S.write table values r a.1 ≠ r a.1) values

/-- The tables after a statement, and the number of rows it affected. -/
def Statement.run : Statement → Tables δ → Tables δ × ℕ
  | .insert table values, db =>
    (Function.update db table (db table ++ [S.write table values fun _ => none]), 1)
  | .update table values key id, db =>
    let found := fun r : Row δ => r key = some (S.stored table key (.number id))
    (Function.update db table
        ((db table).map fun r => if found r then S.write table values r else r),
      (db table).countP fun r => found r ∧ S.Changes table values r)
  | .delete table column bound, db =>
    let gone := fun r : Row δ =>
      (r column).any fun v => S.below v (S.stored table column (.number bound))
    (Function.update db table ((db table).filter fun r => !gone r), (db table).countP gone)

/-- `mysql_query` and `mysql_affected_rows`; `none` if the query fails. -/
def Server.query (text : List UInt8) (db : Tables δ) : Option (Tables δ × ℕ) :=
  match (lexFrom .start text).bind parse with
  | some q => some (q.run S db)
  | none => S.other text db

/-- The server runs a statement that it gets as its text. -/
theorem query_text {q : Statement} (hq : q.WellFormed) (hread : q.Readable)
    (hplain : ∀ s ∈ q.strings, Plain s) (db : Tables δ) :
    S.query q.text db = some (q.run S db) := by
  have hlexed : lexFrom .start q.text = some q.tokens := (lexes_text_iff hq).mpr hplain
  rw [Server.query, hlexed, Option.bind_some, parse_tokens hq hread]

end Run

end Sql
