import Gnuais.ParseArgs

/-!
# Writing a line of the configuration file

An argument is written as it is, or in quotes with a backslash in front of each quote
and backslash; arguments are separated by white space. `parse_args` finds the
arguments that a line was written for (`parseArgs_configLine`).
-/

namespace Gnuais

open Buffer CString

/-! ## Written arguments

An argument with white space in it must be quoted, and so must one that starts with a
quote or is empty. -/

/-- A backslash in front of the quotes and backslashes. -/
def escapeQuotes (arg : List UInt8) : List UInt8 :=
  arg.flatMap fun c => if c = 34 ∨ c = 92 then [92, c] else [c]

/-- The ways to write an argument. -/
inductive Written : List UInt8 → List UInt8 → Prop
  /-- as it is -/
  | raw {arg : List UInt8} (hne : arg ≠ []) (hspace : ∀ c ∈ arg, isspace c = false)
      (hzero : 0 ∉ arg) (hquote : arg.head? ≠ some 34) : Written arg arg
  /-- in quotes -/
  | quoted {arg : List UInt8} (hzero : 0 ∉ arg) : Written (34 :: (escapeQuotes arg ++ [34])) arg

/-- White space only. -/
def Blank (s : List UInt8) : Prop := ∀ c ∈ s, isspace c = true

instance : DecidablePred Blank := List.decidableBAll (isspace · = true)

/-- Arguments one behind the other, up to the end of the line. -/
inductive Arguments : List UInt8 → List (List UInt8) → Prop
  /-- the last one, with white space behind it -/
  | last {text arg trailing : List UInt8} (harg : Written text arg) (hblank : Blank trailing) :
      Arguments (text ++ trailing) [arg]
  /-- one argument, white space, and the others -/
  | cons {text arg blanks line : List UInt8} {args : List (List UInt8)} (harg : Written text arg)
      (hne : blanks ≠ []) (hblank : Blank blanks) (hline : Arguments line args) :
      Arguments (text ++ (blanks ++ line)) (arg :: args)

/-- A line that is written for some arguments. -/
def ConfigLine (line : List UInt8) (args : List (List UInt8)) : Prop :=
  ∃ leading text, line = leading ++ text ∧ Blank leading ∧ Arguments text args

/-- A line of three arguments, the last one with a blank and a quote in it. -/
example : tokens 255 [32, 97, 9, 32, 34, 34, 32, 34, 98, 32, 92, 34, 34, 10] =
    some [[97], [], [98, 32, 34]] := by decide

/-! ## No terminator stands in a line

The line is a string, so the reader may look for its end. -/

/-- White space has none. -/
theorem zero_not_mem_blank {s : List UInt8} (h : Blank s) : 0 ∉ s := fun hmem => by
  have hspace := h 0 hmem
  revert hspace
  decide

/-- An argument has none. -/
theorem Written.zero_not_mem {text arg : List UInt8} (h : Written text arg) : 0 ∉ text := by
  cases h with
  | raw _ _ hzero _ => exact hzero
  | quoted hzero =>
    intro hmem
    rcases List.mem_cons.mp hmem with h | hmem
    · exact absurd h (by decide)
    rcases List.mem_append.mp hmem with hmem | hmem
    · obtain ⟨c, hc, hmem⟩ := List.mem_flatMap.mp hmem
      split at hmem
      · rcases List.mem_cons.mp hmem with h | hmem
        · exact absurd h (by decide)
        · exact hzero (List.mem_singleton.mp hmem ▸ hc)
      · exact hzero (List.mem_singleton.mp hmem ▸ hc)
    · exact absurd (List.mem_singleton.mp hmem) (by decide)

theorem Arguments.zero_not_mem {line : List UInt8} {args : List (List UInt8)}
    (h : Arguments line args) : 0 ∉ line := by
  induction h with
  | last harg hblank =>
    intro hmem
    exact (List.mem_append.mp hmem).elim harg.zero_not_mem (zero_not_mem_blank hblank)
  | cons harg _ hblank _ ih =>
    intro hmem
    rcases List.mem_append.mp hmem with hmem | hmem
    · exact harg.zero_not_mem hmem
    · exact (List.mem_append.mp hmem).elim (zero_not_mem_blank hblank) ih

/-! ## The arguments of a line

The reader stops at white space behind an argument that is not quoted, and at the quote
behind one that is. The two ways of writing are those it takes apart. -/

/-- Escaping is undone up to the quote behind the text. -/
theorem unescape_escapeQuotes (arg tail : List UInt8) :
    unescape (escapeQuotes arg ++ 34 :: tail) = some (arg, (escapeQuotes arg).length + 1) := by
  induction arg with
  | nil => exact unescape_quote tail
  | cons c arg ih =>
    have hcons : escapeQuotes (c :: arg) = (if c = 34 ∨ c = 92 then [92, c] else [c]) ++
        escapeQuotes arg := List.flatMap_cons
    rw [hcons]
    by_cases hc : c = 34 ∨ c = 92
    · rw [if_pos hc]
      have hread : readChar (92 :: c :: (escapeQuotes arg ++ 34 :: tail)) = some (c, 2) := by
        rcases hc with rfl | rfl <;> rfl
      refine (unescape_cons (by simp [AtEnd]) hread).trans ?_
      rw [List.drop_succ_cons, List.drop_succ_cons, List.drop_zero, ih, Option.map_some,
        List.length_append, List.length_cons, List.length_singleton, Nat.add_assoc]
    · rw [if_neg hc]
      obtain ⟨hquote, hslash⟩ := not_or.mp hc
      have hread : readChar (c :: (escapeQuotes arg ++ 34 :: tail)) = some (c, 1) := by
        rw [readChar, if_neg hslash]
      refine (unescape_cons (by simp [AtEnd, hquote]) hread).trans ?_
      rw [List.drop_succ_cons, List.drop_zero, ih, Option.map_some, List.length_append,
        List.length_singleton, Nat.add_assoc]

/-- White space in front of something else is skipped. -/
theorem dropWhile_blank {leading : List UInt8} (h : Blank leading) (s : List UInt8) :
    (leading ++ s).dropWhile isspace = s.dropWhile isspace := List.dropWhile_append_of_pos h

/-- Where the text of an argument can end. -/
def Ends (tail : List UInt8) : Prop := ∀ c ∈ tail.head?, isspace c = true

/-- The first argument of a line, and the rest of it behind one blank. -/
theorem tokens_written (left : ℕ) {leading text arg tail : List UInt8} (hleading : Blank leading)
    (harg : Written text arg) (htail : Ends tail) :
    tokens (left + 1) (leading ++ (text ++ tail)) =
      (tokens left (tail.drop 1)).map (arg :: ·) := by
  cases harg with
  | raw hne hspace hzero hquote =>
    obtain ⟨c, s, rfl⟩ := List.exists_cons_of_ne_nil hne
    have hdrop : (leading ++ (c :: s ++ tail)).dropWhile isspace = c :: (s ++ tail) := by
      rw [dropWhile_blank hleading, List.cons_append,
        List.dropWhile_cons_of_neg (by rw [hspace c List.mem_cons_self]; decide)]
    have hword : ∀ b ∈ c :: s, (!isspace b) = true := fun b hb => by rw [hspace b hb]; rfl
    have hend : tail.takeWhile (fun c => !isspace c) = [] ∧
        tail.dropWhile (fun c => !isspace c) = tail := by
      cases tail with
      | nil => exact ⟨rfl, rfl⟩
      | cons b tail =>
        have hb := htail b rfl
        exact ⟨List.takeWhile_cons_of_neg (by rw [hb]; decide),
          List.dropWhile_cons_of_neg (by rw [hb]; decide)⟩
    rw [tokens_word (fun h => hquote (congrArg some h)) hdrop, ← List.cons_append,
      List.takeWhile_append_of_pos hword, List.dropWhile_append_of_pos hword, hend.1, hend.2,
      List.append_nil]
  | quoted hzero =>
    have hdrop : (leading ++ (34 :: (escapeQuotes arg ++ [34]) ++ tail)).dropWhile isspace =
        34 :: (escapeQuotes arg ++ 34 :: tail) := by
      rw [dropWhile_blank hleading, List.cons_append, List.append_assoc, List.singleton_append]
      rfl
    have hrest : (escapeQuotes arg ++ 34 :: tail).drop ((escapeQuotes arg).length + 1 + 1) =
        tail.drop 1 := by
      rw [List.drop_append, List.drop_eq_nil_of_le (by omega), List.nil_append,
        show (escapeQuotes arg).length + 1 + 1 - (escapeQuotes arg).length = 1 + 1 by omega,
        List.drop_succ_cons]
    rw [tokens_quote hdrop, unescape_escapeQuotes, Option.bind_some]
    dsimp only
    rw [hrest, takeWhile_ne_zero hzero]

/-- At the end of the line there is nothing more. -/
theorem tokens_blank (left : ℕ) {s : List UInt8} (h : Blank s) : tokens left s = some [] := by
  cases left with
  | zero => rfl
  | succ left => exact tokens_nil (List.dropWhile_eq_nil_iff.mpr h)

/-- Up to `left` arguments are found, in their order. -/
theorem Arguments.tokens_eq {text : List UInt8} {args : List (List UInt8)}
    (h : Arguments text args) {left : ℕ} (hlen : args.length ≤ left) {leading : List UInt8}
    (hleading : Blank leading) : tokens left (leading ++ text) = some args := by
  induction h generalizing left leading with
  | last harg hblank =>
    cases left with
    | zero => exact absurd hlen (Nat.not_succ_le_zero _)
    | succ left =>
      rw [tokens_written left hleading harg fun c hc => hblank c (List.mem_of_mem_head? hc),
        tokens_blank left fun c hc => hblank c (List.mem_of_mem_drop hc)]
      rfl
  | @cons text arg blanks line args harg hne hblank _ ih =>
    cases left with
    | zero => exact absurd hlen (Nat.not_succ_le_zero _)
    | succ left =>
      -- the first blank is cut, the others stand in front of the next argument
      obtain ⟨b, blanks, rfl⟩ := List.exists_cons_of_ne_nil hne
      have hends : Ends (b :: blanks ++ line) := fun c hc =>
        hblank c (Option.some.inj hc ▸ List.mem_cons_self)
      rw [tokens_written left hleading harg hends, List.cons_append, List.drop_one, List.tail_cons,
        ih (Nat.le_of_succ_le_succ hlen) fun c hc => hblank c (List.mem_cons_of_mem _ hc)]
      rfl

/-- `parse_args` finds the arguments that a line was written for. The arguments are found
in the memory of the line itself, with terminators behind them. -/
theorem parseArgs_configLine {line : List UInt8} {args : List (List UInt8)}
    (h : ConfigLine line args) (hlen : args.length ≤ 255) (rest : List UInt8) :
    ∃ r, parseArgs (line ++ 0 :: rest) = some r ∧ r.argc = args.length ∧
      (∀ i (h : i < args.length), r.arg i = some (some args[i])) ∧ r.arg r.argc = some none := by
  obtain ⟨leading, text, rfl, hleading, hargs⟩ := h
  have hzero : 0 ∉ leading ++ text := fun hmem =>
    (List.mem_append.mp hmem).elim (zero_not_mem_blank hleading) hargs.zero_not_mem
  have hparse := parseArgs_tokens hzero rest
  rw [hargs.tokens_eq hlen hleading] at hparse
  obtain ⟨mem, ptrs, hresult, hstored⟩ := hparse
  exact ⟨_, hresult, hstored.holds⟩

/-- A directive and a quoted name, with the line feed behind them. -/
theorem parseArgs_configLine_name : ∃ r,
    parseArgs ([108, 111, 103, 32, 34, 97, 32, 92, 34, 34, 10] ++ [0]) = some r ∧ r.argc = 2 ∧
      (∀ i (h : i < 2), r.arg i = some (some ([[108, 111, 103], [97, 32, 34]].get ⟨i, h⟩))) ∧
      r.arg r.argc = some none := by
  have hdirective : Written [108, 111, 103] [108, 111, 103] :=
    .raw (by decide) (by decide +kernel) (by decide) (by decide)
  have hname : Written (34 :: (escapeQuotes [97, 32, 34] ++ [34])) [97, 32, 34] :=
    .quoted (by decide)
  have hblank : Blank [32] := by decide
  have hline : ConfigLine [108, 111, 103, 32, 34, 97, 32, 92, 34, 34, 10]
      [[108, 111, 103], [97, 32, 34]] :=
    ⟨[], _, rfl, by decide, 
      .cons hdirective (List.cons_ne_nil _ _) hblank (.last hname (by decide : Blank [10]))⟩
  exact parseArgs_configLine hline (by decide) []

end Gnuais
