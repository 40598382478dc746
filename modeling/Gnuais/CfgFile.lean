import Gnuais.Lib.CString

/-!
# Lines of the configuration file

`cfgfile.c` takes a line apart where it stands: `parse_string` undoes the escapes of
a quoted argument with a write cursor behind its read cursor, and `parse_args` cuts
the line into arguments by storing terminators in it. `argv` points into the line.

* `parseString`, `parseArgs` — the code, on the memory the line stands in.
* `unescape`, `tokens` — the same for a string that is not touched.

As elsewhere, a store outside the memory or a string without a terminator is `none`.
-/

namespace Gnuais

open CString

/-! ## `parse_string`

The cursor that writes is never in front of the one that reads, so the string is rewritten
where it stands. The one error is a backslash in front of the terminator, for which `NULL`
is returned. -/

/-- The escapes of one letter. -/
def namedEscapes : List (UInt8 × UInt8) :=
  [(110, 10), (116, 9), (118, 11), (98, 8), (114, 13), (102, 12), (97, 7), (92, 92), (34, 34)]

/-- The `switch` behind a backslash: the character to store, and the number of
characters that are read for it. `none` is the end of the string. -/
def parseEscape : List UInt8 → Option (UInt8 × ℕ)
  | [] => none
  | c :: s =>
    match namedEscapes.lookup c with
    | some b => some (b, 1)
    | none =>
      -- `str--`, so that `strtoul` starts at the `x` or at the first digit
      if c = 120 then
        let (num, used) := strtoul 16 (c :: s)
        some (UInt8.ofNat num, used)
      else if 48 ≤ c ∧ c ≤ 55 then
        let (num, used) := strtoul 8 (c :: s)
        some (UInt8.ofNat num, used)
      else some (c, 1)

/-- One turn of the loop: the character to store, and the number of characters that
are read for it. -/
def readChar : List UInt8 → Option (UInt8 × ℕ)
  | [] => none
  | c :: s =>
    if c = 92 then (parseEscape s).map fun (num, used) => (num, used + 1)
    else some (c, 1)

/-- The loop ends here: at the terminator or at a quote. -/
def AtEnd (s : List UInt8) : Prop := s = [] ∨ s.head? = some 34

instance : DecidablePred AtEnd := fun s => inferInstanceAs (Decidable (s = [] ∨ s.head? = some 34))

/-- The loop of `parse_string` and what follows it, with the line as it is left and the
pointer returned. A turn reads a character at least. `str` is the cursor that reads and
`cp` the one that writes. -/
def parseStringLoop : ℕ → List UInt8 → ℕ → ℕ → Option (List UInt8 × Option ℕ)
  | 0, _, _, _ => none
  | turns + 1, mem, str, cp => do
    let s ← stringAt mem str
    if AtEnd s then do
      let mem ← put mem cp 0
      return (mem, some (if s = [] then str else str + 1))
    else
      match readChar s with
      | none => return (mem, none)
      | some (num, used) => do
        let mem ← put mem cp num
        parseStringLoop turns mem (str + used) (cp + 1)

/-- `parse_string` -/
def parseString (mem : List UInt8) (str : ℕ) : Option (List UInt8 × Option ℕ) :=
  parseStringLoop (mem.length + 1) mem str str

/-! ## `parse_args`

Blanks separate the arguments, and a quote starts one in which `parse_string` undoes
escapes. The line becomes a row of strings, one behind the other. -/

/-- What `parse_args` leaves: the line, the number it returns, and the pointers it
stored in `argv`. -/
structure ParsedArgs where
  /-- the line, with terminators behind the arguments -/
  mem : List UInt8
  /-- the number of arguments -/
  argc : ℕ
  /-- where each starts, and then `NULL` -/
  argv : List (Option ℕ)
  deriving DecidableEq, Repr

/-- `argv[ct] = NULL; return ct;` -/
def finishArgs (mem : List UInt8) (argv : List ℕ) : ParsedArgs where
  mem := mem
  argc := argv.length
  argv := argv.map some ++ [none]

/-- `if (*cmd) *cmd++ = 0;` -/
def cut (mem : List UInt8) (cmd : ℕ) : Option (List UInt8 × ℕ) := do
  let s ← stringAt mem cmd
  if s = [] then return (mem, cmd)
  else do
    let mem ← put mem cmd 0
    return (mem, cmd + 1)

/-- The loop of `parse_args`, for `left` more arguments. -/
def parseArgsLoop : ℕ → List UInt8 → List ℕ → ℕ → Option ParsedArgs
  | 0, mem, argv, _ => some (finishArgs mem argv)
  | left + 1, mem, argv, cmd => do
    let s ← stringAt mem cmd
    let cmd := cmd + (s.takeWhile isspace).length
    let s ← stringAt mem cmd
    if s = [] then return finishArgs mem argv
    else if s.head? = some 34 then do
      let cmd := cmd + 1
      match ← parseString mem cmd with
      | (mem, none) => return ⟨mem, 0, (argv ++ [cmd]).map some⟩
      | (mem, some after) => do
        let (mem, next) ← cut mem after
        parseArgsLoop left mem (argv ++ [cmd]) next
    else do
      let (mem, next) ← cut mem (cmd + (s.takeWhile fun c => !isspace c).length)
      parseArgsLoop left mem (argv ++ [cmd]) next

/-- `parse_args`, for at most 255 arguments. -/
def parseArgs (mem : List UInt8) : Option ParsedArgs := parseArgsLoop 255 mem [] 0

/-- `argv[i]`: the string it points to, or `NULL`. An entry that was not stored and a
string without an end are `none`. -/
def ParsedArgs.arg (args : ParsedArgs) (i : ℕ) : Option (Option (List UInt8)) :=
  match args.argv[i]? with
  | none => none
  | some none => some none
  | some (some pos) => (stringAt args.mem pos).map some

/-! ## Strings that are not touched

What the two functions compute, said without memory. `ConfigLine` and `ParseArgs` show
that the code does the same in place. -/

/-- What `parse_string` makes of a string: the characters it stores, and the number
it reads up to the end or behind a quote. -/
def unescapeLoop : ℕ → List UInt8 → Option (List UInt8 × ℕ)
  | 0, _ => none
  | turns + 1, s =>
    if AtEnd s then some ([], if s = [] then 0 else 1)
    else
      match readChar s with
      | none => none
      | some (num, used) =>
        (unescapeLoop turns (s.drop used)).map fun (chars, more) => (num :: chars, used + more)

/-- From the start of the string. -/
def unescape (s : List UInt8) : Option (List UInt8 × ℕ) := unescapeLoop (s.length + 1) s

/-- The arguments of a line, `left` at most; `none` for a backslash at its end. It is what
`parse_args` is for, and has no memory in it. -/
def tokens : ℕ → List UInt8 → Option (List (List UInt8))
  | 0, _ => some []
  | left + 1, line =>
    match line.dropWhile isspace with
    | [] => some []
    | c :: s =>
      if c = 34 then
        (unescape s).bind fun (chars, used) =>
          (tokens left (s.drop (used + 1))).map (chars.takeWhile (· ≠ 0) :: ·)
      else
        (tokens left (((c :: s).dropWhile fun c => !isspace c).drop 1)).map
          ((c :: s).takeWhile (fun c => !isspace c) :: ·)

end Gnuais
