import Gnuais.Lib.Numeral
import Mathlib.Tactic.Tauto

/-!
# SQL tokens

How a MySQL server takes a text apart.

* `lexFrom` — the lexer: words and numbers, single characters, strings in either
  quote with doubled quotes and backslash escapes, comments.
* `Plain` — a string that denotes itself between double quotes: no `"`, and a
  backslash in front of `%` and `_` only, where it stays.

A string between double quotes, with a separator behind, is the token of that
string exactly if it is plain (`lexes_string`). What makes this hold both ways
is counted: an escape makes the value shorter than the text, and a value that
takes in the closing quote takes in a separator too many.
-/

namespace Sql

/-! ## The lexer

A machine that takes the text character by character. Every state knows what it must do at
the end of the text. -/

/-- What a text is taken apart into. -/
inductive Token where
  /-- a name, a keyword or a number -/
  | word (text : List UInt8)
  /-- a character by itself -/
  | punct (c : UInt8)
  /-- what a string denotes -/
  | string (value : List UInt8)
  deriving DecidableEq, Repr

/-- A character of a name or a number. -/
def IsWordChar (c : UInt8) : Prop :=
  (48 ≤ c ∧ c ≤ 57) ∨ (65 ≤ c ∧ c ≤ 90) ∨ (97 ≤ c ∧ c ≤ 122) ∨ c = 95 ∨ c = 36 ∨ 128 ≤ c

instance : DecidablePred IsWordChar := fun c => by
  unfold IsWordChar
  infer_instance

/-- Where the lexer is; what it has of a token so far is `acc`. -/
inductive LexState where
  /-- between two tokens -/
  | start
  /-- in a name or a number -/
  | word (acc : List UInt8)
  /-- in a string that began with `quote` -/
  | string (quote : UInt8) (acc : List UInt8)
  /-- behind a backslash in a string -/
  | escape (quote : UInt8) (acc : List UInt8)
  /-- behind a quote in a string, which ends it or is the first of two -/
  | quote (quote : UInt8) (acc : List UInt8)
  /-- behind a minus, which may begin a comment -/
  | minus
  /-- behind `--` -/
  | dashes
  /-- behind a slash, which may begin one as well -/
  | slash
  /-- up to the end of the line -/
  | lineComment
  /-- up to a star and a slash -/
  | comment
  /-- behind a star in a comment -/
  | star
  deriving DecidableEq, Repr

/-- What a backslash and a character denote in a string. -/
def unescape (c : UInt8) : List UInt8 :=
  if c = 48 then [0]
  else if c = 98 then [8]
  else if c = 110 then [10]
  else if c = 114 then [13]
  else if c = 116 then [9]
  else if c = 90 then [26]
  else if c = 37 ∨ c = 95 then [92, c]
  else [c]

/-- A character where no token is open. -/
def lexFresh (c : UInt8) : LexState × List Token :=
  if c ≤ 32 then (.start, [])
  else if IsWordChar c then (.word [c], [])
  else if c = 34 ∨ c = 39 then (.string c [], [])
  else if c = 35 then (.lineComment, [])
  else if c = 45 then (.minus, [])
  else if c = 47 then (.slash, [])
  else (.start, [.punct c])

/-- A character behind finished tokens. -/
def lexAfter (ts : List Token) (c : UInt8) : LexState × List Token :=
  ((lexFresh c).1, ts ++ (lexFresh c).2)

/-- The point of a number belongs to it. -/
def Continues (acc : List UInt8) (c : UInt8) : Prop :=
  IsWordChar c ∨ (c = 46 ∧ ∃ d ∈ acc.head?, IsDigit d)

instance (acc : List UInt8) (c : UInt8) : Decidable (Continues acc c) := by
  unfold Continues
  infer_instance

/-- One character: the state behind it, and the tokens that are finished. -/
def lexStep : LexState → UInt8 → LexState × List Token
  | .start, c => lexFresh c
  | .word acc, c => if Continues acc c then (.word (acc ++ [c]), []) else lexAfter [.word acc] c
  | .string q acc, c =>
    if c = q then (.quote q acc, [])
    else if c = 92 then (.escape q acc, [])
    else (.string q (acc ++ [c]), [])
  | .escape q acc, c => (.string q (acc ++ unescape c), [])
  | .quote q acc, c => if c = q then (.string q (acc ++ [q]), []) else lexAfter [.string acc] c
  | .minus, c => if c = 45 then (.dashes, []) else lexAfter [.punct 45] c
  | .dashes, c =>
    if c ≤ 32 then (.lineComment, [])
    else if c = 45 then (.dashes, [.punct 45])
    else lexAfter [.punct 45, .punct 45] c
  | .slash, c => if c = 42 then (.comment, []) else lexAfter [.punct 47] c
  | .lineComment, c => if c = 10 then (.start, []) else (.lineComment, [])
  | .comment, c => if c = 42 then (.star, []) else (.comment, [])
  | .star, c =>
    if c = 47 then (.start, []) else if c = 42 then (.star, []) else (.comment, [])

/-- The end of the text. An open string or comment is an error. -/
def lexEnd : LexState → Option (List Token)
  | .start => some []
  | .word acc => some [.word acc]
  | .quote _ acc => some [.string acc]
  | .minus => some [.punct 45]
  | .dashes => some [.punct 45, .punct 45]
  | .slash => some [.punct 47]
  | .lineComment => some []
  | .string _ _ => none
  | .escape _ _ => none
  | .comment => none
  | .star => none

/-- A text, from any state. -/
def lexFrom : LexState → List UInt8 → Option (List Token)
  | st, [] => lexEnd st
  | st, c :: cs => (lexFrom (lexStep st c).1 cs).map ((lexStep st c).2 ++ ·)

/-- The text has these tokens. -/
def Lexes (text : List UInt8) (ts : List Token) : Prop := lexFrom .start text = some ts

instance (text : List UInt8) (ts : List Token) : Decidable (Lexes text ts) :=
  inferInstanceAs (Decidable (_ = _))

/-! ## Words, numbers and single characters

A token ends where a character comes that cannot belong to it. Tokens of a text that was
put together are found again if this is so at each seam. -/

/-- No character in front that a word would go on with. -/
def Stops (rest : List UInt8) : Prop := ∀ c ∈ rest.head?, ¬ IsWordChar c ∧ c ≠ 46

/-- A character that stops a word. -/
theorem stops_cons {c : UInt8} {rest : List UInt8} (h : ¬ IsWordChar c ∧ c ≠ 46) :
    Stops (c :: rest) := by
  rintro _ ⟨⟩
  exact h

/-- A step that finishes no token. -/
theorem lexFrom_cons {st st' : LexState} {c : UInt8} (h : lexStep st c = (st', []))
    (cs : List UInt8) : lexFrom st (c :: cs) = lexFrom st' cs := by
  rw [lexFrom, h]
  cases lexFrom st' cs <;> rfl

/-- A finished token does not change what comes behind it. -/
theorem lexFrom_after (ts : List Token) (c : UInt8) (cs : List UInt8) :
    (lexFrom (lexAfter ts c).1 cs).map ((lexAfter ts c).2 ++ ·) =
      (lexFrom .start (c :: cs)).map (ts ++ ·) := by
  rw [lexFrom, Option.map_map]
  congr 1
  funext rest
  exact List.append_assoc _ _ _

/-- An open word up to its end. -/
theorem lexFrom_word {acc rest : List UInt8} (hrest : Stops rest) :
    lexFrom (.word acc) rest = (lexFrom .start rest).map (.word acc :: ·) := by
  cases rest with
  | nil => rfl
  | cons c cs =>
    obtain ⟨hword, hpoint⟩ := hrest c rfl
    have hstop : ¬ Continues acc c := by
      rintro (h | ⟨h, -⟩)
      · exact hword h
      · exact hpoint h
    have hstep : lexStep (.word acc) c = lexAfter [.word acc] c := if_neg hstop
    rw [lexFrom, hstep]
    exact lexFrom_after _ _ _

/-- The rest of a word is taken into it. -/
theorem lexFrom_continues {w : List UInt8} : ∀ {acc : List UInt8} {rest : List UInt8},
    (∀ c ∈ w, Continues acc c) → acc ≠ [] →
    lexFrom (.word acc) (w ++ rest) = lexFrom (.word (acc ++ w)) rest := by
  induction w with
  | nil =>
    intro acc rest _ _
    rw [List.append_nil]
    rfl
  | cons c w ih =>
    intro acc rest hw hacc
    have hstep : lexStep (.word acc) c = (.word (acc ++ [c]), []) :=
      if_pos (hw c (List.mem_cons_self ..))
    have hrest : ∀ d ∈ w, Continues (acc ++ [c]) d := by
      intro d hd
      rw [Continues, List.head?_append_of_ne_nil _ hacc]
      exact hw d (List.mem_cons_of_mem _ hd)
    rw [List.cons_append, lexFrom_cons hstep, ih hrest (List.append_ne_nil_of_left_ne_nil hacc _),
      List.append_assoc]
    rfl

/-- A word begins. -/
theorem lexFresh_word {c : UInt8} (h : IsWordChar c) : lexFresh c = (.word [c], []) := by
  have hlarge : ¬ c ≤ 32 := by
    rw [IsWordChar] at h
    simp only [UInt8.le_iff_toNat_le, UInt8.ext_iff, UInt8.reduceToNat] at h ⊢
    omega
  rw [lexFresh, if_neg hlarge, if_pos h]

/-- A name: word characters only. -/
def IsName (w : List UInt8) : Prop := w ≠ [] ∧ ∀ c ∈ w, IsWordChar c

instance (w : List UInt8) : Decidable (IsName w) :=
  @instDecidableAnd _ _ _ (List.decidableBAll IsWordChar w)

/-- A word is its token. -/
theorem lexes_word {c : UInt8} {w rest : List UInt8} {ts : List Token} (hc : IsWordChar c)
    (hw : ∀ d ∈ w, Continues [c] d) (hrest : Stops rest) :
    Lexes (c :: w ++ rest) (.word (c :: w) :: ts) ↔ Lexes rest ts := by
  have hstep : lexStep .start c = (.word [c], []) := lexFresh_word hc
  rw [Lexes, List.cons_append, lexFrom_cons hstep, lexFrom_continues hw (List.cons_ne_nil _ _),
    lexFrom_word hrest, Lexes, List.singleton_append]
  cases lexFrom .start rest <;> simp

theorem lexes_name {w rest : List UInt8} {ts : List Token} (hw : IsName w) (hrest : Stops rest) :
    Lexes (w ++ rest) (.word w :: ts) ↔ Lexes rest ts := by
  obtain ⟨hne, hchars⟩ := hw
  obtain ⟨c, w, rfl⟩ := List.exists_cons_of_ne_nil hne
  exact lexes_word (hchars c (List.mem_cons_self ..))
    (fun d hd => .inl (hchars d (List.mem_cons_of_mem _ hd))) hrest

/-- A blank is none. -/
theorem lexes_blank {rest : List UInt8} {ts : List Token} :
    Lexes (32 :: rest) ts ↔ Lexes rest ts := by
  rw [Lexes, lexFrom_cons (show lexStep .start 32 = (.start, []) by decide), Lexes]

/-- Characters that are a token by themselves, whatever follows. -/
def IsPunct (c : UInt8) : Prop := lexFresh c = (.start, [.punct c])

instance (c : UInt8) : Decidable (IsPunct c) := inferInstanceAs (Decidable (_ = _))

/-- A single character is its token. -/
theorem lexes_punct {c : UInt8} {rest : List UInt8} {ts : List Token} (hc : IsPunct c) :
    Lexes (c :: rest) (.punct c :: ts) ↔ Lexes rest ts := by
  rw [Lexes, lexFrom, show lexStep .start c = (.start, [.punct c]) from hc, Lexes]
  cases lexFrom .start rest <;> simp

/-! ## Strings

A string is followed by a separator. If the scan of it goes wrong, then the separator is
taken into a string or the string ends before it, and the tokens are others. -/

/-- A string that denotes itself between double quotes. -/
def Plain : List UInt8 → Prop
  | [] => True
  | [c] => c ≠ 34 ∧ c ≠ 92
  | c :: d :: s =>
    if c = 34 then False
    else if c = 92 then (d = 37 ∨ d = 95) ∧ Plain s
    else Plain (d :: s)

/-- The value of a string, and the text behind its closing quote. -/
def scan : List UInt8 → Option (List UInt8 × List UInt8)
  | [] => none
  | [c] => if c = 34 then some ([], []) else none
  | c :: d :: cs =>
    if c = 34 then
      if d = 34 then (scan cs).map (Prod.map (34 :: ·) id) else some ([], d :: cs)
    else if c = 92 then (scan cs).map (Prod.map (unescape d ++ ·) id)
    else (scan (d :: cs)).map (Prod.map (c :: ·) id)

/-- A character in a string. -/
theorem lexStep_string {acc : List UInt8} {c : UInt8} (hc : c ≠ 34) (hb : c ≠ 92) :
    lexStep (.string 34 acc) c = (.string 34 (acc ++ [c]), []) :=
  (if_neg hc).trans (if_neg hb)

/-- The lexer in a string is `scan`. The cases are those of `scan`. -/
theorem lexFrom_string (text : List UInt8) : ∀ acc : List UInt8,
    lexFrom (.string 34 acc) text =
      (scan text).bind fun p => (lexFrom .start p.2).map (.string (acc ++ p.1) :: ·) := by
  have hquote : ∀ acc, lexStep (.string 34 acc) 34 = (.quote 34 acc, []) := fun _ => rfl
  have hescape : ∀ acc, lexStep (.string 34 acc) 92 = (.escape 34 acc, []) := fun _ => rfl
  have hescaped : ∀ acc d, lexStep (.escape 34 acc) d = (.string 34 (acc ++ unescape d), []) :=
    fun _ _ => rfl
  induction text using scan.induct with
  | case1 => exact fun acc => rfl
  | case2 =>
    intro acc
    rw [scan, if_pos rfl, lexFrom_cons (hquote acc), Option.bind_some, List.append_nil]
    rfl
  | case3 c hc =>
    intro acc
    rw [scan, if_neg hc]
    by_cases hb : c = 92
    · rw [hb]
      rfl
    · rw [lexFrom_cons (lexStep_string hc hb)]
      rfl
  -- a doubled quote stands for itself, and the string goes on
  | case4 cs ih =>
    intro acc
    have hdouble : lexStep (.quote 34 acc) 34 = (.string 34 (acc ++ [34]), []) := rfl
    rw [scan, if_pos rfl, if_pos rfl, lexFrom_cons (hquote acc), lexFrom_cons hdouble, ih]
    cases scan cs with
    | none => rfl
    | some p => simp
  -- one quote alone ends the string; `d` is the first character behind it
  | case5 d cs hd =>
    intro acc
    have hclose : lexStep (.quote 34 acc) d = lexAfter [.string acc] d := if_neg hd
    rw [scan, if_pos rfl, if_neg hd, Option.bind_some, lexFrom_cons (hquote acc), lexFrom, hclose,
      lexFrom_after, List.append_nil]
    rfl
  -- a backslash takes the next character with it, a quote too
  | case6 d cs h ih =>
    intro acc
    rw [scan, if_neg h, if_pos rfl, lexFrom_cons (hescape acc), lexFrom_cons (hescaped acc d), ih]
    cases scan cs with
    | none => rfl
    | some p => simp
  | case7 c d cs hc hb ih =>
    intro acc
    rw [scan, if_neg hc, if_neg hb, lexFrom_cons (lexStep_string hc hb), ih]
    cases scan (d :: cs) with
    | none => rfl
    | some p => simp

/-- Characters that a backslash neither makes nor changes. -/
def IsSeparator (c : UInt8) : Prop := c = 44 ∨ c = 41 ∨ c = 32

/-- An escape has as many separators as the character behind its backslash. -/
theorem count_unescape {sep : UInt8} (hsep : IsSeparator sep) (c : UInt8) :
    (unescape c).count sep = [c].count sep := by
  rw [unescape]
  split_ifs with h₀ h₁ h₂ h₃ h₄ h₅ h₆
  · rcases hsep with rfl | rfl | rfl <;> rw [h₀] <;> decide
  · rcases hsep with rfl | rfl | rfl <;> rw [h₁] <;> decide
  · rcases hsep with rfl | rfl | rfl <;> rw [h₂] <;> decide
  · rcases hsep with rfl | rfl | rfl <;> rw [h₃] <;> decide
  · rcases hsep with rfl | rfl | rfl <;> rw [h₄] <;> decide
  · rcases hsep with rfl | rfl | rfl <;> rw [h₅] <;> decide
  · rcases hsep with rfl | rfl | rfl <;> rcases h₆ with rfl | rfl <;> decide
  · rfl

/-- An escape denotes one character, except in front of `%` and `_`, where the backslash
stays. -/
theorem length_unescape (c : UInt8) :
    (unescape c).length = 1 ∨ ((c = 37 ∨ c = 95) ∧ unescape c = [92, c]) := by
  rw [unescape]
  split_ifs with h₀ h₁ h₂ h₃ h₄ h₅ h₆
  · exact .inl rfl
  · exact .inl rfl
  · exact .inl rfl
  · exact .inl rfl
  · exact .inl rfl
  · exact .inl rfl
  · exact .inr ⟨h₆, rfl⟩
  · exact .inl rfl

theorem IsSeparator.ne {sep : UInt8} (h : IsSeparator sep) : sep ≠ 34 ∧ sep ≠ 92 := by
  rcases h with rfl | rfl | rfl <;> decide

theorem scan_map {cs v rest : List UInt8} (u : List UInt8)
    (h : (scan cs).map (Prod.map (u ++ ·) id) = some (v, rest)) :
    ∃ v', scan cs = some (v', rest) ∧ v = u ++ v' := by
  obtain ⟨⟨v', rest'⟩, hscan, heq⟩ := Option.map_eq_some_iff.mp h
  obtain ⟨rfl, rfl⟩ := Prod.mk.inj heq
  exact ⟨v', hscan, rfl⟩

/-- What the scan of `s` with its closing quote comes to: it ends too early with
a value that is too short, or at the closing quote, or it runs over the
separator `sep` behind the quote and has one too many in the value. -/
def Scanned (sep : UInt8) (rest s v rest' : List UInt8) : Prop :=
  v.length < s.length ∨
  (rest' = sep :: rest ∧ v.length ≤ s.length ∧ (v.length = s.length → Plain s)) ∨
  s.count sep < v.count sep

/-- One more unit in front. -/
theorem Scanned.unit {sep : UInt8} {rest s v rest' : List UInt8} (raw u : List UInt8)
    (h : Scanned sep rest s v rest') (hlen : u.length ≤ raw.length)
    (hcount : u.count sep = raw.count sep)
    (hplain : u.length = raw.length → Plain s → Plain (raw ++ s)) :
    Scanned sep rest (raw ++ s) (u ++ v) rest' := by
  rw [Scanned, List.length_append, List.length_append, List.count_append, List.count_append]
  rcases h with h | ⟨hrest, hle, hself⟩ | h
  · exact .inl (by omega)
  · exact .inr (.inl ⟨hrest, by omega, fun heq => hplain (by omega) (hself (by omega))⟩)
  · exact .inr (.inr (by omega))

/-- A scan that starts at the separator. -/
theorem scan_separator {sep : UInt8} (hsep : IsSeparator sep) {rest v rest' : List UInt8}
    (h : scan (sep :: rest) = some (v, rest')) : 0 < v.count sep := by
  obtain ⟨hquote, hback⟩ := hsep.ne
  cases rest with
  | nil =>
    rw [scan, if_neg hquote] at h
    cases h
  | cons d cs =>
    rw [scan, if_neg hquote, if_neg hback] at h
    obtain ⟨v', -, rfl⟩ := scan_map [sep] h
    rw [List.count_append, List.count_singleton_self]
    omega

/-- The scan of any string, with its closing quote and a separator behind, comes to one of
these. -/
theorem scan_string {sep : UInt8} (hsep : IsSeparator sep) (rest : List UInt8) (s : List UInt8) :
    ∀ v rest', scan (s ++ 34 :: sep :: rest) = some (v, rest') → Scanned sep rest s v rest' := by
  obtain ⟨hquote, hback⟩ := hsep.ne
  induction s using scan.induct with
  | case1 =>
    intro v rest' h
    rw [List.nil_append, scan, if_pos rfl, if_neg hquote] at h
    obtain ⟨rfl, rfl⟩ := Prod.mk.inj (Option.some.inj h)
    exact .inr (.inl ⟨rfl, Nat.le_refl _, fun _ => trivial⟩)
  | case2 =>
    -- the closing quote is taken for the second of two
    intro v rest' h
    rw [List.singleton_append, scan, if_pos rfl, if_pos rfl] at h
    obtain ⟨v', hscan, rfl⟩ := scan_map [34] h
    have hover := scan_separator hsep hscan
    exact .inr (.inr (by rw [List.count_append]; omega))
  | case3 c hc =>
    intro v rest' h
    rw [List.singleton_append, scan, if_neg hc] at h
    split at h
    · next hb =>
      -- the closing quote is escaped
      obtain ⟨v', hscan, rfl⟩ := scan_map (unescape 34) h
      have hover := scan_separator hsep hscan
      have hnone : [c].count sep = 0 := by
        rw [hb, List.count_singleton, if_neg (by simpa using hback.symm)]
      exact .inr (.inr (by rw [List.count_append]; omega))
    · next hb =>
      rw [scan, if_pos rfl, if_neg hquote] at h
      obtain ⟨rfl, rfl⟩ := Prod.mk.inj (Option.some.inj h)
      exact .inr (.inl ⟨rfl, Nat.le_refl _, fun _ => ⟨hc, hb⟩⟩)
  | case4 s ih =>
    intro v rest' h
    rw [List.cons_append, List.cons_append, scan, if_pos rfl, if_pos rfl] at h
    obtain ⟨v', hscan, rfl⟩ := scan_map [34] h
    have hcount : [34].count sep = [34, 34].count sep :=
      (List.count_cons_of_ne hquote.symm).symm
    exact (ih v' rest' hscan).unit [34, 34] [34] (by decide) hcount fun hlen => absurd hlen (by decide)
  | case5 d s hd =>
    intro v rest' h
    rw [List.cons_append, List.cons_append, scan, if_pos rfl, if_neg hd] at h
    obtain ⟨rfl, rfl⟩ := Prod.mk.inj (Option.some.inj h)
    exact .inl (Nat.succ_pos _)
  | case6 d s hne ih =>
    intro v rest' h
    rw [List.cons_append, List.cons_append, scan, if_neg hne, if_pos rfl] at h
    obtain ⟨v', hscan, rfl⟩ := scan_map (unescape d) h
    have hcount : (unescape d).count sep = [92, d].count sep :=
      (count_unescape hsep d).trans (List.count_cons_of_ne hback.symm).symm
    refine (ih v' rest' hscan).unit [92, d] (unescape d) ?_ hcount fun hlen hs => ?_
    · rcases length_unescape d with hone | ⟨-, htwo⟩
      · rw [hone]
        exact Nat.le_succ 1
      · exact Nat.le_of_eq (congrArg List.length htwo)
    · rcases length_unescape d with hone | ⟨hkept, -⟩
      · rw [hone] at hlen
        cases hlen
      · rw [List.cons_append, List.singleton_append, Plain, if_neg hne, if_pos rfl]
        exact ⟨hkept, hs⟩
  | case7 c d s hc hb ih =>
    intro v rest' h
    rw [List.cons_append, List.cons_append, scan, if_neg hc, if_neg hb] at h
    obtain ⟨v', hscan, rfl⟩ := scan_map [c] h
    refine (ih v' rest' hscan).unit [c] [c] (Nat.le_refl _) rfl fun _ hs => ?_
    rwa [List.singleton_append, Plain, if_neg hc, if_neg hb]

/-- A plain string is scanned as itself. -/
theorem scan_plain {sep : UInt8} (hsep : IsSeparator sep) (rest : List UInt8) {s : List UInt8}
    (hs : Plain s) : scan (s ++ 34 :: sep :: rest) = some (s, sep :: rest) := by
  induction s using Plain.induct with
  | case1 => rw [List.nil_append, scan, if_pos rfl, if_neg hsep.ne.1]
  | case2 c =>
    obtain ⟨hc, hb⟩ := hs
    rw [List.singleton_append, scan, if_neg hc, if_neg hb, scan, if_pos rfl, if_neg hsep.ne.1]
    rfl
  | case3 d s => exact absurd hs (by rw [Plain, if_pos rfl]; exact id)
  | case4 d s h ih =>
    rw [Plain, if_neg h, if_pos rfl] at hs
    obtain ⟨hd, hs⟩ := hs
    have hkeep : unescape d = [92, d] := by
      rcases hd with rfl | rfl <;> decide
    rw [List.cons_append, List.cons_append, scan, if_neg h, if_pos rfl, ih hs, hkeep]
    rfl
  | case5 c d s hc hb ih =>
    rw [Plain, if_neg hc, if_neg hb] at hs
    have hrest := ih hs
    rw [List.cons_append] at hrest
    rw [List.cons_append, List.cons_append, scan, if_neg hc, if_neg hb, hrest]
    rfl

/-- It is its token, with the tokens of the rest behind it, exactly if it is plain. -/
theorem lexes_string {sep : UInt8} (hsep : IsSeparator sep) {s rest : List UInt8} {ts : List Token} :
    Lexes (34 :: s ++ 34 :: sep :: rest) (.string s :: ts) ↔ Plain s ∧ Lexes (sep :: rest) ts := by
  have hopen : lexStep .start 34 = (.string 34 [], []) := by decide
  rw [Lexes, List.cons_append, lexFrom_cons hopen, lexFrom_string]
  constructor
  · intro h
    obtain ⟨⟨v, rest'⟩, hscan, hrest⟩ := Option.bind_eq_some_iff.mp h
    obtain ⟨ts', hts, heq⟩ := Option.map_eq_some_iff.mp hrest
    obtain ⟨hv, rfl⟩ := List.cons.inj heq
    obtain rfl : v = s := Token.string.inj hv
    rcases scan_string hsep rest v v rest' hscan with h | ⟨rfl, -, hplain⟩ | h
    · exact absurd h (Nat.lt_irrefl _)
    · exact ⟨hplain rfl, hts⟩
    · exact absurd h (Nat.lt_irrefl _)
  · rintro ⟨hs, hts⟩
    rw [scan_plain hsep rest hs, Option.bind_some, show lexFrom .start (sep :: rest) = some ts from hts]
    rfl

end Sql
