import Gnuais.Lib.Sql

/-!
# SQL statements and their text

* `Statement` — an `INSERT`, an `UPDATE` of the rows with one key, a `DELETE` of
  the rows below a bound, with `Statement.text` and `Statement.tokens`.
* `SameStructure` — two texts that differ in nothing but what their strings
  denote.

The text of a statement has the statement's tokens exactly if every string in it
is plain (`lexes_text_iff`); with a string that is not, the text does not even
have the statement's structure around other strings (`sameStructure_iff`).
-/

namespace Sql

/-! ## Statements

Only what the program sends is covered: one row is inserted, or the rows with one key are
updated, or old rows are deleted. -/

/-- A number in a statement: its sign, its digits and its point. -/
structure Number where
  /-- a minus is printed -/
  negative : Bool
  /-- with a point among them, if there is one -/
  digits : List UInt8
  deriving DecidableEq, Repr

/-- A value in a statement. -/
inductive Value where
  /-- a number as it is printed -/
  | number (n : Number)
  /-- a string, written between double quotes as it is -/
  | string (s : List UInt8)
  deriving DecidableEq, Repr

/-- The statements of the fragment. Names are lists of characters. -/
inductive Statement where
  /-- a row with these values -/
  | insert (table : List UInt8) (values : List (List UInt8 × Value))
  /-- the rows in which `key` has a value -/
  | update (table : List UInt8) (values : List (List UInt8 × Value)) (key : List UInt8) (id : Number)
  /-- the rows in which `column` is below a bound -/
  | delete (table column : List UInt8) (bound : Number)
  deriving DecidableEq, Repr

/-- The characters of a number. -/
def Number.text (n : Number) : List UInt8 := (if n.negative then [45] else []) ++ n.digits

/-- A minus is a token of its own. -/
def Number.tokens (n : Number) : List Token :=
  (if n.negative then [.punct 45] else []) ++ [.word n.digits]

/-- The characters of a value. -/
def Value.text : Value → List UInt8
  | .number n => n.text
  | .string s => 34 :: s ++ [34]

/-- Its tokens. -/
def Value.tokens : Value → List Token
  | .number n => n.tokens
  | .string s => [.string s]

/-- `column=value` -/
def assignText (a : List UInt8 × Value) : List UInt8 := a.1 ++ 61 :: a.2.text

/-- The tokens of an assignment. -/
def assignTokens (a : List UInt8 × Value) : List Token := .word a.1 :: .punct 61 :: a.2.tokens

/-- The characters of a statement. -/
def Statement.text : Statement → List UInt8
  | .insert table values =>
    ascii "INSERT INTO " ++ table ++ ascii " (" ++ List.intercalate [44] (values.map (·.1)) ++
      ascii ") VALUES (" ++ List.intercalate [44] (values.map (·.2.text)) ++ [41]
  | .update table values key id =>
    ascii "UPDATE " ++ table ++ ascii " SET " ++ List.intercalate [44, 32] (values.map assignText) ++
      ascii " WHERE " ++ key ++ 61 :: id.text
  | .delete table column bound =>
    ascii "DELETE FROM " ++ table ++ ascii " WHERE " ++ column ++ ascii " < " ++ bound.text

/-- A keyword. -/
def keyword (s : String) : Token := .word (ascii s)

/-- Its tokens. -/
def Statement.tokens : Statement → List Token
  | .insert table values =>
    keyword "INSERT" :: keyword "INTO" :: .word table :: .punct 40 ::
      List.intercalate [.punct 44] (values.map fun a => [.word a.1]) ++
      .punct 41 :: keyword "VALUES" :: .punct 40 ::
      List.intercalate [.punct 44] (values.map (·.2.tokens)) ++ [.punct 41]
  | .update table values key id =>
    keyword "UPDATE" :: .word table :: keyword "SET" ::
      List.intercalate [.punct 44] (values.map assignTokens) ++
      keyword "WHERE" :: .word key :: .punct 61 :: id.tokens
  | .delete table column bound =>
    keyword "DELETE" :: keyword "FROM" :: .word table :: keyword "WHERE" :: .word column ::
      .punct 60 :: bound.tokens

/-- The strings in some assignments. -/
def strings (values : List (List UInt8 × Value)) : List (List UInt8) :=
  values.filterMap fun a =>
    match a.2 with
    | .number _ => none
    | .string s => some s

/-- The strings in a statement. -/
def Statement.strings : Statement → List (List UInt8)
  | .insert _ values => Sql.strings values
  | .update _ values _ _ => Sql.strings values
  | .delete _ _ _ => []

/-- A number is a digit and then digits and points. -/
def Number.WellFormed (n : Number) : Prop :=
  ∃ d ds, n.digits = d :: ds ∧ IsDigit d ∧ ∀ c ∈ ds, IsDigit c ∨ c = 46

def Value.WellFormed : Value → Prop
  | .number n => n.WellFormed
  | .string _ => True

/-- Some columns with their values, at least one. -/
def WellFormed (values : List (List UInt8 × Value)) : Prop :=
  values ≠ [] ∧ ∀ a ∈ values, IsName a.1 ∧ a.2.WellFormed

def Statement.WellFormed : Statement → Prop
  | .insert table values => IsName table ∧ Sql.WellFormed values
  | .update table values key id =>
    IsName table ∧ Sql.WellFormed values ∧ IsName key ∧ id.WellFormed
  | .delete table column bound => IsName table ∧ IsName column ∧ bound.WellFormed

/-! ## Their text has their tokens

From the inside out: a number, a value, a list of them with commas, and the statement. -/

theorem IsSeparator.stops {sep : UInt8} (h : IsSeparator sep) (rest : List UInt8) :
    Stops (sep :: rest) := by
  apply stops_cons
  rcases h with rfl | rfl | rfl <;> decide

/-- A number in front of a character that ends it. -/
theorem lexes_number {n : Number} (hn : n.WellFormed) {rest : List UInt8} (hrest : Stops rest)
    {ts : List Token} : Lexes (n.text ++ rest) (n.tokens ++ ts) ↔ Lexes rest ts := by
  obtain ⟨d, ds, hdigits, hd, hds⟩ := hn
  have hcontinues : ∀ c ∈ ds, Continues [d] c := by
    intro c hc
    rcases hds c hc with hdigit | rfl
    · exact .inl (.inl hdigit)
    · exact .inr ⟨rfl, d, rfl, hd⟩
  have hword : Lexes (d :: ds ++ rest) (.word (d :: ds) :: ts) ↔ Lexes rest ts :=
    lexes_word (.inl hd) hcontinues hrest
  rw [Number.text, Number.tokens, hdigits]
  cases n.negative with
  | false => exact hword
  | true =>
    have hminus : lexStep .start 45 = (.minus, []) := by decide
    have hne : d ≠ 45 := by
      rintro rfl
      exact absurd hd (by decide)
    have hafter : lexStep .minus d = lexAfter [.punct 45] d := if_neg hne
    rw [← hword]
    show Lexes (45 :: d :: (ds ++ rest)) (.punct 45 :: .word (d :: ds) :: ts) ↔
      Lexes (d :: (ds ++ rest)) (.word (d :: ds) :: ts)
    rw [Lexes, lexFrom_cons hminus, lexFrom, hafter, lexFrom_after, Lexes]
    cases lexFrom .start (d :: (ds ++ rest)) <;> simp

/-- A value in front of a separator. -/
theorem lexes_value {v : Value} (hv : v.WellFormed) {sep : UInt8} (hsep : IsSeparator sep)
    {rest : List UInt8} {ts : List Token} :
    Lexes (v.text ++ sep :: rest) (v.tokens ++ ts) ↔
      (∀ s, v = .string s → Plain s) ∧ Lexes (sep :: rest) ts := by
  cases v with
  | number n =>
    rw [Value.text, Value.tokens, lexes_number hv (hsep.stops rest)]
    exact ⟨fun h => ⟨fun s hs => (by cases hs), h⟩, And.right⟩
  | string s =>
    have htext : Value.text (.string s) ++ sep :: rest = 34 :: s ++ 34 :: sep :: rest := by
      rw [Value.text, List.append_assoc]
      rfl
    rw [htext]
    refine (lexes_string hsep).trans ⟨fun ⟨hs, h⟩ => ⟨?_, h⟩, fun ⟨hs, h⟩ => ⟨hs s rfl, h⟩⟩
    rintro _ ⟨⟩
    exact hs

theorem lexes_blanks {pad : List UInt8} (hpad : ∀ c ∈ pad, c = 32) {rest : List UInt8}
    {ts : List Token} : Lexes (pad ++ rest) ts ↔ Lexes rest ts := by
  induction pad with
  | nil => exact Iff.rfl
  | cons c pad ih =>
    obtain rfl := hpad c (List.mem_cons_self ..)
    exact lexes_blank.trans (ih fun c hc => hpad c (List.mem_cons_of_mem _ hc))

/-- Pieces that have their tokens in front of a separator have them with commas
between. -/
theorem lexes_intercalate {α : Type} {text : α → List UInt8} {tokens : α → List Token} {P : α → Prop}
    {pad : List UInt8} (hpad : ∀ c ∈ pad, c = 32) {xs : List α} (hne : xs ≠ [])
    (h : ∀ x ∈ xs, ∀ (sep : UInt8) (rest : List UInt8) (ts : List Token), IsSeparator sep →
      (Lexes (text x ++ sep :: rest) (tokens x ++ ts) ↔ P x ∧ Lexes (sep :: rest) ts))
    {sep : UInt8} (hsep : IsSeparator sep) {rest : List UInt8} {ts : List Token} :
    Lexes (List.intercalate (44 :: pad) (xs.map text) ++ sep :: rest)
        (List.intercalate [.punct 44] (xs.map tokens) ++ ts) ↔
      (∀ x ∈ xs, P x) ∧ Lexes (sep :: rest) ts := by
  have hcomma : IsPunct 44 := by decide
  induction xs with
  | nil => exact absurd rfl hne
  | cons x xs ih =>
    have hx := h x (List.mem_cons_self ..)
    cases xs with
    | nil =>
      rw [List.map_singleton, List.map_singleton, List.intercalate_singleton,
        List.intercalate_singleton, hx _ _ _ hsep,
        List.forall_mem_singleton]
    | cons y xs =>
      have hrest : Lexes (List.intercalate (44 :: pad) ((y :: xs).map text) ++ sep :: rest)
            (List.intercalate [.punct 44] ((y :: xs).map tokens) ++ ts) ↔
          (∀ z ∈ y :: xs, P z) ∧ Lexes (sep :: rest) ts :=
        ih (List.cons_ne_nil _ _) fun z hz => h z (List.mem_cons_of_mem _ hz)
      have htext : List.intercalate (44 :: pad) ((x :: y :: xs).map text) ++ sep :: rest =
          text x ++ 44 :: (pad ++ (List.intercalate (44 :: pad) ((y :: xs).map text) ++ sep :: rest)) := by
        simp only [List.map_cons, List.intercalate_cons_cons, List.append_assoc, List.cons_append]
      have htokens : List.intercalate [.punct 44] ((x :: y :: xs).map tokens) ++ ts =
          tokens x ++ .punct 44 :: (List.intercalate [.punct 44] ((y :: xs).map tokens) ++ ts) := by
        simp only [List.map_cons, List.intercalate_cons_cons, List.append_assoc, List.cons_append, List.nil_append]
      rw [htext, htokens, hx _ _ _ (.inl rfl), lexes_punct hcomma, lexes_blanks hpad, hrest]
      simp only [List.forall_mem_cons, and_assoc]

theorem lexes_keyword {s : String} (hs : IsName (ascii s)) {rest : List UInt8} (hrest : Stops rest)
    {ts : List Token} : Lexes (ascii s ++ rest) (keyword s :: ts) ↔ Lexes rest ts :=
  lexes_name hs hrest

/-- Every string among the values is plain. -/
theorem forall_strings {values : List (List UInt8 × Value)} :
    (∀ a ∈ values, ∀ s, a.2 = .string s → Plain s) ↔ ∀ s ∈ strings values, Plain s := by
  simp only [strings, List.mem_filterMap]
  constructor
  · rintro h s ⟨a, ha, hs⟩
    cases hv : a.2 with
    | number n =>
      rw [hv] at hs
      cases hs
    | string s' =>
      rw [hv] at hs
      obtain rfl := Option.some.inj hs
      exact h a ha s' hv
  · intro h a ha s hs
    exact h s ⟨a, ha, by rw [hs]⟩

/-- The values of an `INSERT`. -/
theorem lexes_values {values : List (List UInt8 × Value)} (hwf : WellFormed values)
    {sep : UInt8} (hsep : IsSeparator sep) {rest : List UInt8} {ts : List Token} :
    Lexes (List.intercalate [44] (values.map (·.2.text)) ++ sep :: rest)
        (List.intercalate [.punct 44] (values.map (·.2.tokens)) ++ ts) ↔
      (∀ s ∈ strings values, Plain s) ∧ Lexes (sep :: rest) ts := by
  rw [← forall_strings]
  exact lexes_intercalate (fun _ h => absurd h List.not_mem_nil) hwf.1
    (fun a ha _ _ _ hsep => lexes_value (hwf.2 a ha).2 hsep) hsep

/-- The names of an `INSERT`. -/
theorem lexes_names {values : List (List UInt8 × Value)} (hwf : WellFormed values)
    {sep : UInt8} (hsep : IsSeparator sep) {rest : List UInt8} {ts : List Token} :
    Lexes (List.intercalate [44] (values.map (·.1)) ++ sep :: rest)
        (List.intercalate [.punct 44] (values.map fun a => [.word a.1]) ++ ts) ↔ Lexes (sep :: rest) ts := by
  have hall : Lexes (List.intercalate [44] (values.map (·.1)) ++ sep :: rest)
        (List.intercalate [.punct 44] (values.map fun a => [.word a.1]) ++ ts) ↔
      (∀ a ∈ values, True) ∧ Lexes (sep :: rest) ts :=
    lexes_intercalate (fun _ h => absurd h List.not_mem_nil) hwf.1
      (fun a ha _ rest _ hsep => (lexes_name (hwf.2 a ha).1 (hsep.stops rest)).trans
        ⟨fun h => ⟨trivial, h⟩, And.right⟩) hsep
  rw [hall]
  exact ⟨And.right, fun h => ⟨fun _ _ => trivial, h⟩⟩

/-- The assignments of an `UPDATE`. -/
theorem lexes_assignments {values : List (List UInt8 × Value)} (hwf : WellFormed values)
    {sep : UInt8} (hsep : IsSeparator sep) {rest : List UInt8} {ts : List Token} :
    Lexes (List.intercalate [44, 32] (values.map assignText) ++ sep :: rest)
        (List.intercalate [.punct 44] (values.map assignTokens) ++ ts) ↔
      (∀ s ∈ strings values, Plain s) ∧ Lexes (sep :: rest) ts := by
  have hequals : IsPunct 61 := by decide
  rw [← forall_strings]
  refine lexes_intercalate (fun _ h => List.mem_singleton.mp h) hwf.1 (fun a ha sep rest ts hsep => ?_) hsep
  have hstops : ∀ rest, Stops (61 :: rest) := fun _ => stops_cons (by decide)
  rw [assignText, assignTokens, List.append_assoc]
  show Lexes (a.1 ++ 61 :: (a.2.text ++ sep :: rest)) (.word a.1 :: .punct 61 :: (a.2.tokens ++ ts)) ↔ _
  rw [lexes_name (hwf.2 a ha).1 (hstops _), lexes_punct hequals, lexes_value (hwf.2 a ha).2 hsep]

theorem stops_blank (rest : List UInt8) : Stops (32 :: rest) := stops_cons (by decide)

theorem stops_nil : Stops [] := fun _ h => by cases h

theorem tokens_insert (table : List UInt8) (values : List (List UInt8 × Value)) :
    (Statement.insert table values).tokens =
      keyword "INSERT" :: keyword "INTO" :: .word table :: .punct 40 ::
        (List.intercalate [.punct 44] (values.map fun a => [.word a.1]) ++
          .punct 41 :: keyword "VALUES" :: .punct 40 ::
            (List.intercalate [.punct 44] (values.map (·.2.tokens)) ++ [.punct 41])) := by
  rw [Statement.tokens]
  simp only [List.append_assoc, List.cons_append]

theorem tokens_update (table key : List UInt8) (values : List (List UInt8 × Value)) (id : Number) :
    (Statement.update table values key id).tokens =
      keyword "UPDATE" :: .word table :: keyword "SET" ::
        (List.intercalate [.punct 44] (values.map assignTokens) ++
          keyword "WHERE" :: .word key :: .punct 61 :: id.tokens) := rfl

/-- The text of a statement has the tokens of the statement exactly if every
string in it is plain. -/
theorem lexes_text_iff {q : Statement} (hq : q.WellFormed) :
    Lexes q.text q.tokens ↔ ∀ s ∈ q.strings, Plain s := by
  have hlexed : Lexes [] [] := rfl
  cases q with
  | insert table values =>
    obtain ⟨htable, hvalues⟩ := hq
    have hopen : IsPunct 40 := by decide
    have hclose : IsPunct 41 := by decide
    -- the text cut at its blanks and marks, so that one rule can be used for each piece
    have htext : (Statement.insert table values).text =
        ascii "INSERT" ++ 32 :: (ascii "INTO" ++ 32 :: (table ++ 32 :: 40 ::
          (List.intercalate [44] (values.map (·.1)) ++ 41 :: 32 :: (ascii "VALUES" ++ 32 :: 40 ::
            (List.intercalate [44] (values.map (·.2.text)) ++ [41]))))) := by
      rw [Statement.text, show ascii "INSERT INTO " = ascii "INSERT" ++ 32 :: (ascii "INTO" ++ [32])
        from rfl, show ascii " (" = [32, 40] from rfl,
        show ascii ") VALUES (" = 41 :: 32 :: (ascii "VALUES" ++ [32, 40]) from rfl]
      simp only [List.append_assoc, List.cons_append, List.nil_append]
    rw [htext, tokens_insert, lexes_keyword (by decide) (stops_blank _), lexes_blank,
      lexes_keyword (by decide) (stops_blank _), lexes_blank, lexes_name htable (stops_blank _),
      lexes_blank, lexes_punct hopen, lexes_names hvalues (.inr (.inl rfl)), lexes_punct hclose,
      lexes_blank, lexes_keyword (by decide) (stops_blank _), lexes_blank, lexes_punct hopen,
      lexes_values hvalues (.inr (.inl rfl)), lexes_punct hclose]
    exact ⟨And.left, fun h => ⟨h, hlexed⟩⟩
  | update table values key id =>
    obtain ⟨htable, hvalues, hkey, hid⟩ := hq
    have hequals : IsPunct 61 := by decide
    have hstops : ∀ rest, Stops (61 :: rest) := fun _ => stops_cons (by decide)
    have htext : (Statement.update table values key id).text =
        ascii "UPDATE" ++ 32 :: (table ++ 32 :: (ascii "SET" ++ 32 ::
          (List.intercalate [44, 32] (values.map assignText) ++ 32 :: (ascii "WHERE" ++ 32 ::
            (key ++ 61 :: (id.text ++ [])))))) := by
      rw [Statement.text, show ascii "UPDATE " = ascii "UPDATE" ++ [32] from rfl,
        show ascii " SET " = 32 :: (ascii "SET" ++ [32]) from rfl,
        show ascii " WHERE " = 32 :: (ascii "WHERE" ++ [32]) from rfl]
      simp only [List.append_assoc, List.cons_append, List.nil_append, List.append_nil]
    rw [htext, tokens_update, ← List.append_nil id.tokens, lexes_keyword (by decide) (stops_blank _), lexes_blank,
      lexes_name htable (stops_blank _), lexes_blank, lexes_keyword (by decide) (stops_blank _),
      lexes_blank, lexes_assignments hvalues (.inr (.inr rfl)), lexes_blank,
      lexes_keyword (by decide) (stops_blank _), lexes_blank, lexes_name hkey (hstops _),
      lexes_punct hequals, lexes_number hid stops_nil]
    exact ⟨And.left, fun h => ⟨h, hlexed⟩⟩
  | delete table column bound =>
    obtain ⟨htable, hcolumn, hbound⟩ := hq
    have hless : IsPunct 60 := by decide
    have htext : (Statement.delete table column bound).text =
        ascii "DELETE" ++ 32 :: (ascii "FROM" ++ 32 :: (table ++ 32 :: (ascii "WHERE" ++ 32 ::
          (column ++ 32 :: 60 :: 32 :: (bound.text ++ []))))) := by
      rw [Statement.text, show ascii "DELETE FROM " = ascii "DELETE" ++ 32 :: (ascii "FROM" ++ [32])
        from rfl, show ascii " WHERE " = 32 :: (ascii "WHERE" ++ [32]) from rfl,
        show ascii " < " = [32, 60, 32] from rfl]
      simp only [List.append_assoc, List.cons_append, List.nil_append, List.append_nil]
    have htokens : (Statement.delete table column bound).tokens =
        keyword "DELETE" :: keyword "FROM" :: .word table :: keyword "WHERE" :: .word column ::
          .punct 60 :: (bound.tokens ++ []) := by
      rw [Statement.tokens, List.append_nil]
    rw [htext, htokens, lexes_keyword (by decide) (stops_blank _), lexes_blank,
      lexes_keyword (by decide) (stops_blank _), lexes_blank, lexes_name htable (stops_blank _),
      lexes_blank, lexes_keyword (by decide) (stops_blank _), lexes_blank,
      lexes_name hcolumn (stops_blank _), lexes_blank, lexes_punct hless, lexes_blank,
      lexes_number hbound stops_nil]
    -- a deletion has no string at all
    exact ⟨fun _ _ h => absurd h List.not_mem_nil, fun _ => hlexed⟩

/-! ## The strings put aside

To say that a text has the structure that was meant, whatever its strings denote, tokens
are compared with their strings taken out. -/

/-- A token without its string. -/
def Token.blank : Token → Token
  | .string _ => .string []
  | t => t

/-- The string a token denotes. -/
def Token.value : Token → Option (List UInt8)
  | .string s => some s
  | _ => none

/-- The text says what the other one says, with these strings in it. -/
def SameStructure (text text₀ : List UInt8) (values : List (List UInt8)) : Prop :=
  ∃ ts, Lexes text ts ∧ Lexes text₀ (ts.map Token.blank) ∧ ts.filterMap Token.value = values

/-- Tokens are what they are without their strings, and the strings. -/
theorem tokens_ext {ts ts' : List Token} (hblank : ts.map Token.blank = ts'.map Token.blank)
    (hvalue : ts.filterMap Token.value = ts'.filterMap Token.value) : ts = ts' := by
  induction ts generalizing ts' with
  | nil => exact (List.map_eq_nil_iff.mp hblank.symm).symm
  | cons t ts ih =>
    cases ts' with
    | nil => cases hblank
    | cons t' ts' =>
      obtain ⟨ht, hts⟩ := List.cons.inj hblank
      cases t with
      | word w =>
        cases t' with
        | word w' =>
          obtain rfl : w = w' := Token.word.inj ht
          rw [ih hts hvalue]
        | punct c => cases ht
        | string s => cases ht
      | punct c =>
        cases t' with
        | word w => cases ht
        | punct c' =>
          obtain rfl : c = c' := Token.punct.inj ht
          rw [ih hts hvalue]
        | string s => cases ht
      | string s =>
        cases t' with
        | word w => cases ht
        | punct c => cases ht
        | string s' =>
          obtain ⟨rfl, hrest⟩ := List.cons.inj hvalue
          rw [ih hts hrest]

/-- An empty string in the place of a string. -/
def Value.blank : Value → Value
  | .string _ => .string []
  | v => v

/-- Some values with their strings empty. -/
def blanked (values : List (List UInt8 × Value)) : List (List UInt8 × Value) :=
  values.map fun a => (a.1, a.2.blank)

/-- The statement with its strings empty. -/
def Statement.blank : Statement → Statement
  | .insert table values => .insert table (blanked values)
  | .update table values key id => .update table (blanked values) key id
  | q => q

theorem map_intercalate {α β : Type} (f : α → β) (sep : List α) (xs : List (List α)) :
    (List.intercalate sep xs).map f = List.intercalate (sep.map f) (xs.map (List.map f)) := by
  induction xs with
  | nil => rfl
  | cons x xs ih =>
    cases xs with
    | nil => rw [List.map_singleton, List.intercalate_singleton, List.intercalate_singleton]
    | cons y xs =>
      simp only [List.map_cons, List.intercalate_cons_cons, List.map_append] at ih ⊢
      rw [ih]

theorem Number.tokens_blank (n : Number) : n.tokens.map Token.blank = n.tokens := by
  rw [Number.tokens]
  cases n.negative <;> rfl

theorem Number.tokens_value (n : Number) : n.tokens.filterMap Token.value = [] := by
  rw [Number.tokens]
  cases n.negative <;> rfl

theorem Value.tokens_blank (v : Value) : v.tokens.map Token.blank = v.blank.tokens := by
  cases v with
  | number n => exact n.tokens_blank
  | string s => rfl

theorem Statement.tokens_blank (q : Statement) : q.tokens.map Token.blank = q.blank.tokens := by
  cases q with
  | insert table values =>
    simp only [Statement.tokens, Statement.blank, blanked, List.map_cons, List.map_append,
      map_intercalate, List.map_map, Function.comp_def, keyword, Token.blank, Value.tokens_blank,
      List.map_nil]
  | update table values key id =>
    simp only [Statement.tokens, Statement.blank, blanked, List.map_cons, List.map_append,
      map_intercalate, List.map_map, Function.comp_def, keyword, Token.blank, assignTokens,
      Value.tokens_blank, Number.tokens_blank, List.map_nil]
  | delete table column bound =>
    simp only [Statement.tokens, Statement.blank, List.map_cons, keyword, Token.blank,
      Number.tokens_blank]

theorem intercalate_value {α : Type} {tokens : α → List Token} {sep : List Token}
    (hsep : sep.filterMap Token.value = []) (xs : List α) :
    (List.intercalate sep (xs.map tokens)).filterMap Token.value =
      xs.flatMap fun x => (tokens x).filterMap Token.value := by
  induction xs with
  | nil => rfl
  | cons x xs ih =>
    cases xs with
    | nil => rw [List.map_singleton, List.intercalate_singleton, List.flatMap_singleton]
    | cons y xs =>
      rw [List.map_cons, List.map_cons, List.intercalate_cons_cons, List.filterMap_append,
        List.filterMap_append, hsep, List.append_nil, List.flatMap_cons, ← ih, List.map_cons]

theorem values_value {values : List (List UInt8 × Value)} :
    (values.flatMap fun a => a.2.tokens.filterMap Token.value) = strings values := by
  induction values with
  | nil => rfl
  | cons a values ih =>
    obtain ⟨name, v⟩ := a
    rw [List.flatMap_cons, ih]
    cases v with
    | number n => rw [Value.tokens, Number.tokens_value]; rfl
    | string s => rfl

theorem Statement.tokens_value (q : Statement) : q.tokens.filterMap Token.value = q.strings := by
  have hcomma : [Token.punct 44].filterMap Token.value = [] := rfl
  cases q with
  | insert table values =>
    have hnames : (List.intercalate [.punct 44] (values.map fun a => [.word a.1])).filterMap Token.value = [] :=
      (intercalate_value hcomma values).trans (List.flatMap_eq_nil_iff.mpr fun _ _ => rfl)
    have hvalues : (List.intercalate [.punct 44] (values.map (·.2.tokens))).filterMap Token.value =
        Sql.strings values := (intercalate_value hcomma values).trans values_value
    simp only [Statement.tokens, keyword, List.cons_append, List.filterMap_cons,
      List.filterMap_append, Token.value, hnames, hvalues, List.filterMap_nil, List.append_nil]
    rfl
  | update table values key id =>
    have hvalues : (List.intercalate [.punct 44] (values.map assignTokens)).filterMap Token.value =
        Sql.strings values := by
      rw [intercalate_value hcomma values, ← values_value]
      rfl
    simp only [Statement.tokens, keyword, List.cons_append, List.filterMap_cons,
      List.filterMap_append, Token.value, hvalues, Number.tokens_value, List.append_nil]
    rfl
  | delete table column bound => exact bound.tokens_value

theorem WellFormed.blank {values : List (List UInt8 × Value)} (h : WellFormed values) :
    WellFormed (blanked values) := by
  refine ⟨fun hnil => h.1 (List.map_eq_nil_iff.mp hnil), fun a ha => ?_⟩
  obtain ⟨⟨name, v⟩, hv, rfl⟩ := List.mem_map.mp ha
  obtain ⟨hname, hvalue⟩ := h.2 _ hv
  refine ⟨hname, ?_⟩
  cases v with
  | number n => exact hvalue
  | string s => trivial

theorem Statement.WellFormed.blank {q : Statement} (hq : q.WellFormed) : q.blank.WellFormed := by
  cases q with
  | insert table values => exact ⟨hq.1, hq.2.blank⟩
  | update table values key id => exact ⟨hq.1, hq.2.1.blank, hq.2.2⟩
  | delete table column bound => exact hq

theorem strings_blanked {values : List (List UInt8 × Value)} {s : List UInt8}
    (hs : s ∈ strings (blanked values)) : s = [] := by
  obtain ⟨a, ha, hv⟩ := List.mem_filterMap.mp hs
  obtain ⟨⟨name, v⟩, -, rfl⟩ := List.mem_map.mp ha
  cases v with
  | number n => cases hv
  | string s => exact (Option.some.inj hv).symm

theorem Statement.strings_blank {q : Statement} {s : List UInt8} (hs : s ∈ q.blank.strings) :
    s = [] := by
  cases q with
  | insert table values => exact strings_blanked hs
  | update table values key id => exact strings_blanked hs
  | delete table column bound => cases hs

/-- The text of a statement with some strings says what it says with empty ones
exactly if the strings are plain. -/
theorem sameStructure_iff {q : Statement} (hq : q.WellFormed) :
    SameStructure q.text q.blank.text q.strings ↔ ∀ s ∈ q.strings, Plain s := by
  rw [← lexes_text_iff hq]
  have hblank : Lexes q.blank.text q.blank.tokens := by
    rw [lexes_text_iff hq.blank]
    intro s hs
    rw [Statement.strings_blank hs]
    trivial
  constructor
  · rintro ⟨ts, hts, hts₀, hvalue⟩
    have hsame : ts.map Token.blank = q.tokens.map Token.blank := by
      rw [q.tokens_blank]
      exact Option.some.inj (hts₀.symm.trans hblank)
    rwa [← tokens_ext hsame (hvalue.trans q.tokens_value.symm)]
  · intro h
    exact ⟨q.tokens, h, by rwa [q.tokens_blank], q.tokens_value⟩

end Sql
