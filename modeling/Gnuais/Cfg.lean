import Gnuais.CfgFile
import Gnuais.Demod
import Mathlib.Algebra.Group.Int.Defs
import Mathlib.Logic.Function.Basic

/-!
# The directives of the configuration file

`cfg.c`, and the part of `cfgfile.c` that runs one directive. A line is cut into
arguments, the first argument picks a command out of `cfg_cmds`, and the command's
handler reads the others from `argv` and sets its variable.

* `parseInterval` — the text of an interval, cut at its units where it stands.
* `doString` … `doUplink` — the handlers.
* `cmdparse` — a whole line.

`none` is undefined behaviour: a string of the library that is `NULL`, an entry of
`argv` that was never stored, or a signed overflow. Numbers that `atoi` cannot hold
are those of a 64-bit `strtol`. Memory for a copy of a string is always there, and
messages to `stderr` and to the log are left out. What `atof` makes of a string is a
parameter.
-/

namespace Gnuais

open CString

/-! ## Configuration variables

The handlers get a pointer to the variable they set. Here the variables have names, and a
handler gets the name. There is one for each variable that the table of commands points
at. -/

/-- The variables that `do_string` sets. -/
inductive StringVar where
  | logdir | mycall | myemail | mysqlHost | mysqlDb | mysqlUser | mysqlPassword
  | soundDevice | soundInFile | soundOutFile | serialPort
  deriving DecidableEq, Repr

/-- The variables of type `int`. -/
inductive IntVar where
  | statsInterval | expiryInterval | mysqlKeepsmall | mysqlOldlimit | soundChannels
  | soundLevellog
  deriving DecidableEq, Repr

/-- The variables that `do_float` sets. -/
inductive FloatVar where
  | mylat | mylng
  deriving DecidableEq, Repr

/-- `struct uplink_config_t`, with `none` for `NULL`. -/
structure UplinkConfig where
  /-- `UPLINK_JSON`, the only protocol -/
  proto : ℤ
  /-- a copy of the label -/
  name : Option (List UInt8)
  /-- a copy of the address -/
  url : Option (List UInt8)
  deriving DecidableEq, Repr

/-- What the directives set. -/
structure CfgVars (F : Type) where
  /-- each `NULL` or a copy of an argument -/
  strings : StringVar → Option (List UInt8)
  /-- intervals, toggles and the choice of channels -/
  ints : IntVar → ℤ
  /-- the station's position, in degrees -/
  floats : FloatVar → F
  /-- a flag for each message type, 0 included -/
  skipType : Fin (maxAisPacketType + 1) → ℤ
  /-- the uplinks, last one first as they are linked -/
  newUplinkConfig : List UplinkConfig

/-! ## `parse_interval`

An interval is a sum, such as `1h30m`. The function cuts its copy at each unit and starts
again behind it. The sum is computed in a `time_t`, the product of each item in `int`;
either can overflow. -/

/-- A number that fits in an `int`. -/
def InInt (n : ℤ) : Prop := -2 ^ 31 ≤ n ∧ n < 2 ^ 31

/-- A number that fits in a `time_t`. -/
def InTime (n : ℤ) : Prop := -2 ^ 63 ≤ n ∧ n < 2 ^ 63

instance : DecidablePred InInt := fun n => inferInstanceAs (Decidable (-2 ^ 31 ≤ n ∧ n < 2 ^ 31))

instance : DecidablePred InTime := fun n => inferInstanceAs (Decidable (-2 ^ 63 ≤ n ∧ n < 2 ^ 63))

/-- The value of an expression of type `int`. -/
def int (n : ℤ) : Option ℤ := if InInt n then some n else none

/-- `t += n` -/
def addTime (t n : ℤ) : Option ℤ := if InTime (t + n) then some (t + n) else none

/-- The `if` over the units. -/
def addUnit (c : UInt8) (i t : ℤ) : Option ℤ :=
  if c = 115 then addTime t i
  else if c = 109 then do addTime t (← int (60 * i))
  else if c = 104 then do addTime t (← int (60 * 60 * i))
  else if c = 100 then do addTime t (← int (24 * 60 * 60 * i))
  else some t

/-- The loop over the copy `s`, and the number behind the last unit. `np` is where the
number starts and `p` where the loop is. -/
def parseIntervalLoop : ℕ → List UInt8 → ℕ → ℕ → ℤ → Option ℤ
  | 0, _, _, _, _ => none
  | turns + 1, s, np, p, t => do
    match ← stringAt s p with
    | [] => do
      let last ← stringAt s np
      if last = [] then return t else addTime t (atoi last)
    | c :: _ =>
      if IsDigit c then parseIntervalLoop turns s np (p + 1) t
      else do
        let s ← put s p 0
        let t ← addUnit (tolower c) (atoi (← stringAt s np)) t
        parseIntervalLoop turns s (p + 1) (p + 1) t

/-- `parse_interval` -/
def parseInterval (origs : List UInt8) : Option ℤ :=
  parseIntervalLoop (origs.length + 1) (origs ++ [0]) 0 0 0

/-! ## Reading `argv`

`parse_args` stores a pointer for each argument and `NULL` behind the last one, and leaves
the rest of `argv` as it was. A handler that reads there reads what an earlier line left.
So reads are recorded, and reading an entry that was not stored is undefined. -/

/-- A handler at work, with the places of `argv` it has read. A read of a place that was
not stored is none, and with it the whole handler. -/
abbrev Handling (α : Type) := StateT (List ℕ) Option α

/-- `argv[i]` The place is recorded before it is read. -/
def argvAt (args : ParsedArgs) (i : ℕ) : Handling (Option (List UInt8)) := fun reads =>
  (args.arg i).map fun s => (s, reads ++ [i])

/-- A string of `argv` that a function of the library reads. -/
def argString (args : ParsedArgs) (i : ℕ) : Handling (List UInt8) := do
  match ← argvAt args i with
  | some s => return s
  | none => failure

/-- `hstrdup(argv[i])` -/
def hstrdup (args : ParsedArgs) (i : ℕ) : Handling (Option (List UInt8)) :=
  some <$> argString args i

section Reading

variable {args : ParsedArgs} {i : ℕ} (reads : List ℕ)

/-- An argument that is there. -/
theorem argString_run {s : List UInt8} (h : args.arg i = some (some s)) :
    (argString args i).run reads = some (s, reads ++ [i]) := by
  rw [argString, StateT.run_bind, StateT.run, argvAt, h]
  rfl

/-- There is no string behind `NULL`. -/
theorem argString_null (h : args.arg i = some none) : (argString args i).run reads = none := by
  rw [argString, StateT.run_bind, StateT.run, argvAt, h]
  rfl

/-- An argument that is there is copied. -/
theorem hstrdup_run {s : List UInt8} (h : args.arg i = some (some s)) :
    (hstrdup args i).run reads = some (some s, reads ++ [i]) := by
  rw [hstrdup, StateT.run_map, argString_run reads h]
  rfl

/-- There is nothing to copy behind `NULL`. -/
theorem hstrdup_null (h : args.arg i = some none) : (hstrdup args i).run reads = none := by
  rw [hstrdup, StateT.run_map, argString_null reads h]
  rfl

end Reading

/-! ## Handlers

Each looks at `argc` first, and most are content with two arguments. -/

/-- What a handler is called with, and what it leaves: the number it returns and the
variables. -/
abbrev Handler (F : Type) := ParsedArgs → CfgVars F → Handling (ℤ × CfgVars F)

section Handlers

variable {F : Type}

/-- A string variable gets a new value; the old string is not freed. -/
def CfgVars.setString (cfg : CfgVars F) (dest : StringVar) (s : Option (List UInt8)) : CfgVars F :=
  { cfg with strings := Function.update cfg.strings dest s }

/-- An `int` variable gets a new value. -/
def CfgVars.setInt (cfg : CfgVars F) (dest : IntVar) (n : ℤ) : CfgVars F :=
  { cfg with ints := Function.update cfg.ints dest n }

/-- `do_string` -/
def doString (dest : StringVar) : Handler F := fun args cfg =>
  if args.argc < 2 then return (-1, cfg)
  else do
    let s ← hstrdup args 1
    return (0, cfg.setString dest s)

/-- `do_int` -/
def doInt (dest : IntVar) : Handler F := fun args cfg =>
  if args.argc < 2 then return (-1, cfg)
  else do
    let s ← argString args 1
    return (0, cfg.setInt dest (atoi s))

/-- `do_float` -/
def doFloat (atof : List UInt8 → F) (dest : FloatVar) : Handler F := fun args cfg =>
  if args.argc < 2 then return (-1, cfg)
  else do
    let s ← argString args 1
    return (0, { cfg with floats := Function.update cfg.floats dest (atof s) })

/-- The words that switch a toggle on. -/
def toggleWords : List (List UInt8) :=
  [ascii "true", ascii "on", ascii "1", ascii "enable", ascii "enabled", ascii "yes"]

/-- `do_toggle`, which returns 1 for a toggle that is switched on. Only numbers below 0
are errors. -/
def doToggle (dest : IntVar) : Handler F := fun args cfg =>
  if args.argc < 2 then return (-1, cfg)
  else do
    let s ← argString args 1
    if toggleWords.any (strcasecmpEq s) then return (1, cfg.setInt dest 1)
    else return (0, cfg.setInt dest 0)

/-- `do_interval`, where the `time_t` becomes an `int`. -/
def doInterval (dest : IntVar) : Handler F := fun args cfg =>
  if args.argc < 2 then return (-1, cfg)
  else do
    let t ← liftM (parseInterval (← argString args 1))
    return (0, cfg.setInt dest (t.bmod (2 ^ 32)))

/-- `do_skip_type`, which does not use its destination. -/
def doSkipType : Handler F := fun args cfg =>
  if args.argc < 2 then return (-1, cfg)
  else do
    let i := atoi (← argString args 1)
    if h : 0 < i ∧ i ≤ maxAisPacketType then
      return (0, { cfg with
        skipType := Function.update cfg.skipType ⟨i.toNat, by omega⟩ 1 })
    else return (-1, cfg)

/-- The words of `do_sound_ch`, with `SOUND_CHANNELS_MONO`, `SOUND_CHANNELS_BOTH`,
`SOUND_CHANNELS_LEFT` and `SOUND_CHANNELS_RIGHT`. -/
def soundChannelWords : List (List UInt8 × ℤ) :=
  [(ascii "mono", 1), (ascii "both", 2), (ascii "left", 3), (ascii "right", 4)]

/-- `do_sound_ch` -/
def doSoundCh (dest : IntVar) : Handler F := fun args cfg =>
  if args.argc < 2 then return (-1, cfg)
  else do
    let s ← argString args 1
    match soundChannelWords.find? fun word => strcasecmpEq s word.1 with
    | some word => return (0, cfg.setInt dest word.2)
    | none => return (-1, cfg)

/-- `UPLINK_JSON` -/
def uplinkJson : ℤ := 1

/-- `do_uplink`: the label is `argv[1]`, and the address `argv[3]`. It checks for three
arguments and reads four. -/
def doUplink : Handler F := fun args cfg =>
  if args.argc < 3 then return (-1, cfg)
  else do
    if strcasecmpEq (← argString args 2) (ascii "json") then
      let name ← hstrdup args 1
      let url ← hstrdup args 3
      return (0, { cfg with newUplinkConfig := ⟨uplinkJson, name, url⟩ :: cfg.newUplinkConfig })
    else return (-2, cfg)

/-! ## The table

The commands in the source's order, which decides between two that a directive
abbreviates. -/

/-- `struct cfgcmd`, where the function is applied to its destination. -/
structure CfgCmd (F : Type) where
  /-- the name, which a line may abbreviate -/
  name : String
  /-- the handler, with the variable it sets -/
  function : Handler F

/-- `cfg_cmds` -/
def cfgCmds (atof : List UInt8 → F) : List (CfgCmd F) :=
  [⟨"logdir", doString .logdir⟩,
    ⟨"mycall", doString .mycall⟩,
    ⟨"myemail", doString .myemail⟩,
    ⟨"latitude", doFloat atof .mylat⟩,
    ⟨"longitude", doFloat atof .mylng⟩,
    ⟨"statsinterval", doInterval .statsInterval⟩,
    ⟨"expiryinterval", doInterval .expiryInterval⟩,
    ⟨"uplink", doUplink⟩,
    ⟨"mysql_host", doString .mysqlHost⟩,
    ⟨"mysql_db", doString .mysqlDb⟩,
    ⟨"mysql_user", doString .mysqlUser⟩,
    ⟨"mysql_password", doString .mysqlPassword⟩,
    ⟨"mysql_keepsmall", doToggle .mysqlKeepsmall⟩,
    ⟨"mysql_oldlimit", doInt .mysqlOldlimit⟩,
    ⟨"sounddevice", doString .soundDevice⟩,
    ⟨"soundinfile", doString .soundInFile⟩,
    ⟨"soundoutfile", doString .soundOutFile⟩,
    ⟨"soundchannels", doSoundCh .soundChannels⟩,
    ⟨"soundlevellog", doInt .soundLevellog⟩,
    ⟨"serialport", doString .serialPort⟩,
    ⟨"serial_port", doString .serialPort⟩,
    ⟨"skip_type", doSkipType⟩]

end Handlers

/-! ## `cmdparse`

A line without arguments and a comment are not errors. Neither is looked up. -/

/-- `strlwr`, one character after the other. -/
def strlwrLoop : ℕ → List UInt8 → ℕ → Option (List UInt8)
  | 0, _, _ => none
  | turns + 1, mem, c => do
    match ← stringAt mem c with
    | [] => return mem
    | ch :: _ => do
      let mem ← put mem c (tolower ch)
      strlwrLoop turns mem (c + 1)

/-- `strlwr`, on the first argument where it stands. -/
def strlwr (mem : List UInt8) (s : ℕ) : Option (List UInt8) := strlwrLoop (mem.length + 1) mem s

/-- What `cmdparse` returns and leaves, with what the handler was called with and the
places of `argv` it read. -/
structure Handled (F : Type) where
  /-- negative for an error -/
  ret : ℤ
  /-- the variables behind the line -/
  cfg : CfgVars F
  /-- the number of arguments the handler was called with, or 0 if none was -/
  argc : ℕ
  /-- the places of `argv` it read -/
  reads : List ℕ

variable {F : Type}

/-- `cmdparse` -/
def cmdparse (cmds : List (CfgCmd F)) (cmdline : List UInt8) (cfg : CfgVars F) :
    Option (Handled F) := do
  let args ← parseArgs cmdline
  if args.argc = 0 then return ⟨0, cfg, 0, []⟩
  else do
    let start ← args.argv[0]?.join
    let directive ← stringAt args.mem start
    if directive.head? = some 35 then return ⟨0, cfg, 0, []⟩
    else do
      let mem ← strlwr args.mem start
      let directive ← stringAt mem start
      match cmds.find? fun cmd => strncasecmpEq (ascii cmd.name) directive directive.length with
      | none => return ⟨-1, cfg, 0, []⟩
      | some cmd => do
        let ((ret, cfg), reads) ← (cmd.function { args with mem := mem } cfg).run []
        return ⟨ret, cfg, args.argc, reads⟩

end Gnuais
