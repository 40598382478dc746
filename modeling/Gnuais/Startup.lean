import Gnuais.Hlog
import Gnuais.Settings

/-!
# Start-up

`main` takes its options from the command line (`parse_cmdline`), then reads the
configuration file and completes and checks what it says (`read_config`).

* `parseCmdline`, `readConfig` — the code.
* `startup_iff` — when the program starts, and what it starts with.

What `getopt` returns is given as a list, and so are the bytes of the configuration file,
with `none` if there is no file. Messages are left out.
-/

namespace Gnuais

open CString Lines

/-! ## The command line

An option that is not understood does not stop the loop: the program looks at all of them
and ends afterwards. -/

/-- What `getopt` returns, with `optarg`; the help is `?` as well. -/
inductive CmdOption where
  /-- the configuration file -/
  | c (optarg : List UInt8)
  /-- fork a daemon -/
  | f
  /-- the name of the log -/
  | n (optarg : List UInt8)
  /-- the directory of the logs -/
  | r (optarg : List UInt8)
  /-- the level of the log, by its name -/
  | e (optarg : List UInt8)
  /-- the destination of the log, by its name -/
  | o (optarg : List UInt8)
  /-- a file to read the sound from -/
  | l (optarg : List UInt8)
  /-- a file to write the sound to -/
  | s (optarg : List UInt8)
  /-- the version is printed, and the program does not start -/
  | h

/-- The variables that `parse_cmdline` sets. -/
structure CmdVars where
  /-- `cfgfile` -/
  cfgfile : List UInt8
  /-- `fork_a_daemon` -/
  forkADaemon : Bool
  /-- `logname` -/
  logname : List UInt8
  /-- `log_dir`, `NULL` if no option gave it -/
  logDir : Option (List UInt8)
  /-- `log_level`, an index into `log_levelnames` -/
  logLevel : ℤ
  /-- `log_dest`, an index into `log_destnames` -/
  logDest : ℤ
  /-- `sound_in_file`; the directive of the same name writes to it as well -/
  soundInFile : Option (List UInt8)
  /-- `sound_out_file` -/
  soundOutFile : Option (List UInt8)
  deriving DecidableEq

/-- Their first values: `LOG_INFO` is 6 and `L_DEFDEST` is `L_STDERR`. -/
def CmdVars.initial : CmdVars where
  cfgfile := ascii "gnuais.conf"
  forkADaemon := false
  logname := ascii "gnuais"
  logDir := none
  logLevel := 6
  logDest := 1
  soundInFile := none
  soundOutFile := none

/-- `log_destnames` -/
def logDestnames : List String := ["none", "stderr", "syslog", "file"]

/-- `L_FILE` -/
def lFile : ℤ := 3

/-- `pick_loglevel`, with `none` for -1. -/
def pickLoglevel (s : List UInt8) (names : List String) : Option ℕ :=
  names.findIdx? fun name => strcasecmpEq s (ascii name)

/-- The `switch` of `parse_cmdline`, with `failed`. -/
def takeOption (cmd : CmdVars) : CmdOption → CmdVars × Bool
  | .c optarg => ({ cmd with cfgfile := optarg }, false)
  | .f => ({ cmd with forkADaemon := true }, false)
  | .n optarg => ({ cmd with logname := optarg }, false)
  | .r optarg => ({ cmd with logDir := some optarg }, false)
  | .e optarg =>
    match pickLoglevel optarg logLevelnames with
    | some i => ({ cmd with logLevel := i }, false)
    | none => (cmd, true)
  | .o optarg =>
    match pickLoglevel optarg logDestnames with
    | some i => ({ cmd with logDest := i }, false)
    | none => (cmd, true)
  | .l optarg => ({ cmd with soundInFile := some optarg }, false)
  | .s optarg => ({ cmd with soundOutFile := some optarg }, false)
  | .h => (cmd, true)

/-- The loop of `parse_cmdline`. -/
def takeOptions (cmd : CmdVars) : List CmdOption → CmdVars × Bool
  | [] => (cmd, false)
  | option :: options =>
    let (cmd, failed) := takeOption cmd option
    let (cmd, failed') := takeOptions cmd options
    (cmd, failed || failed')

/-- `parse_cmdline`, with `none` for `exit`. -/
def parseCmdline (options : List CmdOption) : Option CmdVars :=
  let (cmd, failed) := takeOptions .initial options
  if failed ∨ cmd.logDest = lFile ∧ cmd.logDir = none then none else some cmd

/-! ## `read_config`

The function reads the file and then fills in what is missing, one variable after the
other. An error in the file ends it at once, a callsign that is not allowed only behind
the other variables. -/

/-- What `read_config` needs of the type `float`. All the program does with them is to
compare and to convert, so nothing is asked of the operations. -/
structure FloatOps (F : Type) where
  /-- the number a text stands for -/
  atof : List UInt8 → F
  /-- whether a latitude and a longitude are in their ranges -/
  inRange : F → F → Bool
  /-- degrees to radians -/
  lat2rad : F → F
  lon2rad : F → F
  /-- the value of a coordinate that no directive sets -/
  notSet : F

/-- The variables of the program. -/
structure Vars (F : Type) where
  /-- those of the command line -/
  cmd : CmdVars
  /-- those of the file -/
  cfg : CfgVars F
  /-- the uplinks, once the file is read without an error -/
  uplinkConfig : List UplinkConfig
  /-- whether the file gives a position -/
  haveMyLoc : Bool
  /-- where the number of the process is written -/
  pidfile : Option (List UInt8)

section Config

variable {F : Type} (ops : FloatOps F)

/-- They have been given their first values, and the command line has been read. -/
def Vars.initial (cmd : CmdVars) : Vars F where
  cmd := cmd
  cfg := {
    strings := fun
      | .soundInFile => cmd.soundInFile
      | .soundOutFile => cmd.soundOutFile
      | _ => none
    ints := fun
      | .soundChannels => 1
      | _ => 0
    floats := fun _ => ops.notSet
    skipType := fun _ => 0
    newUplinkConfig := [] }
  uplinkConfig := []
  haveMyLoc := false
  pidfile := none

/-- `valid_aprsis_call` -/
def validAprsisCall (s : List UInt8) : Bool :=
  if s.length > 12 then false else if s.length < 3 then false else true

/-- The command line's directory, that of the file or the current one. -/
def defineLogdir (logDir : Option (List UInt8)) (cfg : CfgVars F) : CfgVars F :=
  match logDir with
  | some logDir => cfg.setString .logdir (some logDir)
  | none =>
    if cfg.strings .logdir = none then cfg.setString .logdir (some (ascii ".")) else cfg

/-- A default for `mycall`, or whether it has failed. -/
def checkMycall (cfg : CfgVars F) : CfgVars F × Bool :=
  match cfg.strings .mycall with
  | none => (cfg.setString .mycall (some (ascii "NOCALLDEFINED")), false)
  | some mycall => (cfg, !validAprsisCall mycall)

/-- A default for `myemail`. -/
def defineMyemail (cfg : CfgVars F) : CfgVars F :=
  if cfg.strings .myemail = none then
    cfg.setString .myemail (some (ascii "notdefined@notdefined"))
  else cfg

/-- A default for `sound_device`. -/
def defineSound (cfg : CfgVars F) : CfgVars F :=
  if cfg.strings .soundInFile = none ∧ cfg.strings .soundDevice = none then
    cfg.setString .soundDevice (some (ascii "default"))
  else cfg

/-- Sound is read from a file if there is one. -/
def chooseSound (cfg : CfgVars F) : CfgVars F :=
  if cfg.strings .soundInFile ≠ none ∧ cfg.strings .soundDevice ≠ none then
    cfg.setString .soundDevice none
  else cfg

/-- Degrees become radians if they are in their range. -/
def locate (cfg : CfgVars F) : CfgVars F × Bool :=
  if ops.inRange (cfg.floats .mylat) (cfg.floats .mylng) then
    ({ cfg with floats := fun
        | .mylat => ops.lat2rad (cfg.floats .mylat)
        | .mylng => ops.lon2rad (cfg.floats .mylng) }, true)
  else (cfg, false)

/-- `sprintf` to memory of some size. -/
def sprintfTo (size : ℕ) (text : List UInt8) : Option (List UInt8) :=
  if text.length < size then some text else none

/-- The name of the file for the number of the process. -/
def definePidfile (logdir logname : List UInt8) : Option (List UInt8) → Option (List UInt8)
  | some pidfile => some pidfile
  | none => sprintfTo (logdir.length + 1 + logname.length + 3 + 2)
      (logdir ++ [47] ++ logname ++ ascii ".pid")

/-- What `read_config` does and returns when the file has been read. -/
def completeConfig (v : Vars F) : Option (ℤ × Vars F) := do
  let (cfg, failed) := checkMycall (defineLogdir v.cmd.logDir v.cfg)
  let (cfg, haveMyLoc) := locate ops (chooseSound (defineSound (defineMyemail cfg)))
  let v := { v with
    cfg := { cfg with newUplinkConfig := [] }
    uplinkConfig := cfg.newUplinkConfig
    haveMyLoc := haveMyLoc }
  if failed then return (-1, v)
  else do
    let logdir ← v.cfg.strings .logdir
    let pidfile ← definePidfile logdir v.cmd.logname v.pidfile
    return (0, { v with pidfile := some pidfile })

/-- `read_config`, with what it returns. -/
def readConfig (behind : ℕ → List UInt8) (file : Option (List UInt8)) (v : Vars F) :
    Option (ℤ × Vars F) := do
  let r ← match file with
    | some file => readCfgfile (cfgCmds ops.atof) behind file v.cfg
    | none => some ⟨0, v.cfg, 0⟩
  if r.ret ≠ 0 then return (-1, { v with cfg := r.cfg })
  else completeConfig ops { v with cfg := r.cfg }

/-- The configuration as the receivers see it, for a program with a database or without;
the database and the cache are there when they are asked for. -/
def Vars.receiverConfig (mysql : Bool) (v : Vars F) : Gnuais.Config where
  my := mysql && (v.cfg.strings .mysqlDb).isSome
  cachePositions := !v.uplinkConfig.isEmpty
  haveMyLoc := v.haveMyLoc
  skipType := fun type => if h : type < maxAisPacketType + 1 then v.cfg.skipType ⟨type, h⟩ ≠ 0
    else false

/-! ## The last setting counts

Every directive overwrites its variable, except the uplinks, which are all kept, and the
types to skip, of which each has a flag of its own. -/

/-- The string that a setting gives a variable. -/
def stringFor (dest : StringVar) : Setting → Option (List UInt8)
  | .string d s => if d = dest then some s else none
  | _ => none

/-- The last one. -/
def lastString (dest : StringVar) (settings : List Setting) : Option (List UInt8) :=
  (settings.filterMap (stringFor dest)).getLast?

/-- The number that a setting gives a variable. -/
def intFor (dest : IntVar) : Setting → Option ℤ
  | .int d n => if d = dest then some n else none
  | _ => none

/-- The last one. -/
def lastInt (dest : IntVar) (settings : List Setting) : Option ℤ :=
  (settings.filterMap (intFor dest)).getLast?

/-- The text of the degrees that a setting gives a variable. -/
def floatFor (dest : FloatVar) : Setting → Option (List UInt8)
  | .float d text => if d = dest then some text else none
  | _ => none

/-- The last one. -/
def lastFloat (dest : FloatVar) (settings : List Setting) : Option (List UInt8) :=
  (settings.filterMap (floatFor dest)).getLast?

/-- The uplink that a setting gives. -/
def uplinkOf : Setting → Option UplinkConfig
  | .uplink name url => some ⟨uplinkJson, some name, some url⟩
  | _ => none

section Apply

variable (atof : List UInt8 → F)

/-- One setting more. -/
theorem applyAll_concat (settings : List Setting) (s : Setting) (cfg : CfgVars F) :
    applyAll atof (settings ++ [s]) cfg = s.apply atof (applyAll atof settings cfg) := by
  rw [applyAll_append]
  rfl

/-- The last of what some settings give, with one setting more. -/
theorem getLast?_filterMap_concat {α β : Type} (f : α → Option β) (xs : List α) (x : α) :
    ((xs ++ [x]).filterMap f).getLast? = (f x).or (xs.filterMap f).getLast? := by
  rw [List.filterMap_append, List.getLast?_append]
  cases hx : f x with
  | none => rw [List.filterMap_cons_none hx]; rfl
  | some y => rw [List.filterMap_cons_some hx]; rfl

/-- A string that is set, and the others as they were. -/
theorem CfgVars.setString_strings (cfg : CfgVars F) (dest d : StringVar)
    (s : Option (List UInt8)) :
    (cfg.setString d s).strings dest = if dest = d then s else cfg.strings dest :=
  Function.update_apply ..

/-- The last string for a variable is the one it gets. -/
theorem applyAll_strings (dest : StringVar) (settings : List Setting) (cfg : CfgVars F) :
    (applyAll atof settings cfg).strings dest = (lastString dest settings).or (cfg.strings dest) := by
  induction settings using List.reverseRecOn with
  | nil => rfl
  | append_singleton settings s ih =>
    rw [applyAll_concat, lastString, getLast?_filterMap_concat, Option.or_assoc, ← lastString, ← ih]
    cases s with
    | string d s =>
      rw [Setting.apply, CfgVars.setString_strings, stringFor]
      by_cases hd : d = dest
      · rw [if_pos hd.symm, if_pos hd]
        rfl
      · rw [if_neg (Ne.symm hd), if_neg hd]
        rfl
    | _ => rfl

/-- The last number for a variable is the one it gets. -/
theorem applyAll_ints (dest : IntVar) (settings : List Setting) (cfg : CfgVars F) :
    (applyAll atof settings cfg).ints dest = (lastInt dest settings).getD (cfg.ints dest) := by
  induction settings using List.reverseRecOn with
  | nil => rfl
  | append_singleton settings s ih =>
    rw [applyAll_concat, lastInt, getLast?_filterMap_concat, Option.getD_or, ← lastInt, ← ih]
    cases s with
    | int d n =>
      rw [Setting.apply, intFor]
      by_cases hd : d = dest
      · rw [if_pos hd, ← hd]
        exact Function.update_self ..
      · rw [if_neg hd]
        exact Function.update_of_ne (Ne.symm hd) ..
    | _ => rfl

/-- The last degrees are the ones it gets. -/
theorem applyAll_floats (dest : FloatVar) (settings : List Setting) (cfg : CfgVars F) :
    (applyAll atof settings cfg).floats dest =
      ((lastFloat dest settings).map atof).getD (cfg.floats dest) := by
  induction settings using List.reverseRecOn with
  | nil => rfl
  | append_singleton settings s ih =>
    rw [applyAll_concat, lastFloat, getLast?_filterMap_concat, Option.map_or, Option.getD_or,
      ← lastFloat, ← ih]
    cases s with
    | float d text =>
      rw [Setting.apply, floatFor]
      by_cases hd : d = dest
      · rw [if_pos hd, ← hd]
        exact Function.update_self ..
      · rw [if_neg hd]
        exact Function.update_of_ne (Ne.symm hd) ..
    | _ => rfl

/-- The uplinks are put in front of the others. -/
theorem applyAll_uplinks (settings : List Setting) (cfg : CfgVars F) :
    (applyAll atof settings cfg).newUplinkConfig =
      (settings.filterMap uplinkOf).reverse ++ cfg.newUplinkConfig := by
  induction settings using List.reverseRecOn with
  | nil => rfl
  | append_singleton settings s ih =>
    rw [applyAll_concat, List.filterMap_append, List.reverse_append, List.append_assoc, ← ih]
    cases s <;> rfl

/-- A type of packets is skipped if some setting says so. -/
theorem applyAll_skipType (i : Fin (maxAisPacketType + 1)) (settings : List Setting)
    (cfg : CfgVars F) : (applyAll atof settings cfg).skipType i =
      if .skipType i ∈ settings then 1 else cfg.skipType i := by
  induction settings using List.reverseRecOn with
  | nil => rfl
  | append_singleton settings s ih =>
    simp only [applyAll_concat, List.mem_append, List.mem_singleton]
    cases s with
    | skipType j =>
      by_cases hj : i = j
      · rw [hj, if_pos (.inr rfl)]
        exact Function.update_self ..
      · have hne : Setting.skipType i ≠ .skipType j := fun h => hj (Setting.skipType.inj h)
        simp only [hne, or_false, ← ih]
        exact Function.update_of_ne hj ..
    | _ =>
      simp only [reduceCtorEq, or_false, ← ih]
      rfl

end Apply

/-! ## Completing the configuration

Each step looks at one variable and sets one. So their order does not matter, apart from
the sound, whose device depends on its file. -/

/-- A variable that has the value already. -/
theorem CfgVars.setString_of_eq {cfg : CfgVars F} {dest : StringVar} {s : Option (List UInt8)}
    (h : cfg.strings dest = s) : cfg.setString dest s = cfg := by
  rw [CfgVars.setString, ← h, Function.update_eq_self]

/-- The command line comes before the file. -/
theorem defineLogdir_eq (logDir : Option (List UInt8)) (cfg : CfgVars F) :
    defineLogdir logDir cfg =
      cfg.setString .logdir (some ((logDir.or (cfg.strings .logdir)).getD (ascii "."))) := by
  cases logDir with
  | some logDir => rfl
  | none =>
    rw [defineLogdir, Option.none_or]
    cases hdir : cfg.strings .logdir with
    | none => rfl
    | some dir => exact (CfgVars.setString_of_eq hdir).symm

/-- A callsign that is there is not changed, even if it is not allowed. -/
theorem checkMycall_eq (cfg : CfgVars F) :
    checkMycall cfg =
      (cfg.setString .mycall (some ((cfg.strings .mycall).getD (ascii "NOCALLDEFINED"))),
        (cfg.strings .mycall).any fun mycall => !validAprsisCall mycall) := by
  rw [checkMycall]
  cases hcall : cfg.strings .mycall with
  | none => rfl
  | some mycall => rw [Option.getD_some, CfgVars.setString_of_eq hcall, Option.any_some]

/-- The address that the file gives, or the default. -/
theorem defineMyemail_eq (cfg : CfgVars F) :
    defineMyemail cfg = cfg.setString .myemail
      (some ((cfg.strings .myemail).getD (ascii "notdefined@notdefined"))) := by
  rw [defineMyemail]
  cases hemail : cfg.strings .myemail with
  | none => rfl
  | some myemail => exact (CfgVars.setString_of_eq hemail).symm

/-- The device, if sound is not read from a file. -/
theorem chooseSound_eq (cfg : CfgVars F) :
    chooseSound (defineSound cfg) = cfg.setString .soundDevice
      (if (cfg.strings .soundInFile).isSome then none
        else some ((cfg.strings .soundDevice).getD (ascii "default"))) := by
  cases hfile : cfg.strings .soundInFile with
  | none =>
    cases hdevice : cfg.strings .soundDevice with
    | none => simp [chooseSound, defineSound, hfile, hdevice, CfgVars.setString_strings]
    | some device =>
      simp [chooseSound, defineSound, hfile, hdevice, CfgVars.setString_of_eq hdevice]
  | some file =>
    cases hdevice : cfg.strings .soundDevice with
    | none => simp [chooseSound, defineSound, hfile, hdevice, CfgVars.setString_of_eq hdevice]
    | some device => simp [chooseSound, defineSound, hfile, hdevice]

/-- There is room for the name of the file. -/
theorem definePidfile_none (logdir logname : List UInt8) :
    definePidfile logdir logname none = some (logdir ++ [47] ++ logname ++ ascii ".pid") := by
  refine if_pos ?_
  have hext : (ascii ".pid").length = 4 := by decide
  rw [List.length_append, List.length_append, List.length_append, List.length_singleton, hext]
  exact Nat.lt_succ_self _

/-! ## Start-up

What the program starts with is written as a function of the command line and the settings
only. It does not mention the order in which `read_config` does its work. -/

/-- The directory of the logs: the command line's, the file's or the current one. -/
def logdirOf (cmd : CmdVars) (settings : List Setting) : List UInt8 :=
  (cmd.logDir.or (lastString .logdir settings)).getD (ascii ".")

/-- The source of the sound, if it is a file. -/
def soundInFileOf (cmd : CmdVars) (settings : List Setting) : Option (List UInt8) :=
  (lastString .soundInFile settings).or cmd.soundInFile

/-- The degrees of the last setting for them. -/
def degreesOf (settings : List Setting) (dest : FloatVar) : F :=
  ((lastFloat dest settings).map ops.atof).getD ops.notSet

/-- Degrees to radians, for either coordinate. -/
def FloatOps.radians : FloatVar → F → F
  | .mylat => ops.lat2rad
  | .mylng => ops.lon2rad

/-- What the program starts with, when it has read some settings. Every variable that a
directive sets is in one of the fields. -/
structure Vars.StartsWith (v : Vars F) (ops : FloatOps F) (cmd : CmdVars)
    (settings : List Setting) : Prop where
  /-- `read_config` changes none of them -/
  sameCmd : v.cmd = cmd
  /-- the command line's, that of the file, or the current one -/
  logdir : v.cfg.strings .logdir = some (logdirOf cmd settings)
  /-- the last one of the file, or a default -/
  mycall : v.cfg.strings .mycall =
    some ((lastString .mycall settings).getD (ascii "NOCALLDEFINED"))
  myemail : v.cfg.strings .myemail =
    some ((lastString .myemail settings).getD (ascii "notdefined@notdefined"))
  /-- the file's directive comes before the option -/
  soundInFile : v.cfg.strings .soundInFile = soundInFileOf cmd settings
  /-- none if the sound comes from a file -/
  soundDevice : v.cfg.strings .soundDevice =
    if (soundInFileOf cmd settings).isSome then none
    else some ((lastString .soundDevice settings).getD (ascii "default"))
  soundOutFile : v.cfg.strings .soundOutFile =
    (lastString .soundOutFile settings).or cmd.soundOutFile
  /-- there is no default for the others -/
  strings : ∀ dest ∈ [.mysqlHost, .mysqlDb, .mysqlUser, .mysqlPassword, .serialPort],
    v.cfg.strings dest = lastString dest settings
  /-- both degrees are in range -/
  haveMyLoc : v.haveMyLoc =
    ops.inRange (degreesOf ops settings .mylat) (degreesOf ops settings .mylng)
  /-- in radians then, and in degrees as they were set otherwise -/
  floats : ∀ dest, v.cfg.floats dest =
    if v.haveMyLoc then ops.radians dest (degreesOf ops settings dest)
    else degreesOf ops settings dest
  /-- 0 or off without a setting, and mono for the sound -/
  ints : ∀ dest, v.cfg.ints dest = (lastInt dest settings).getD (if dest = .soundChannels then 1 else 0)
  /-- a type is skipped if some setting says so -/
  skipType : ∀ i, v.cfg.skipType i = if .skipType i ∈ settings then 1 else 0
  /-- all of them, the last one first -/
  uplinks : v.uplinkConfig = (settings.filterMap uplinkOf).reverse
  /-- beside the logs -/
  pidfile : v.pidfile =
    some (logdirOf cmd settings ++ [47] ++ cmd.logname ++ ascii ".pid")

/-- A callsign, if there is one, has a length that it may have. -/
def CallFits (mycall : Option (List UInt8)) : Prop :=
  ∀ call ∈ mycall, 3 ≤ call.length ∧ call.length ≤ 12

/-- A callsign is refused for its length only. -/
theorem any_invalid_iff (mycall : Option (List UInt8)) :
    (mycall.any fun call => !validAprsisCall call) = false ↔ CallFits mycall := by
  cases mycall with
  | none => exact iff_of_true rfl fun _ h => nomatch h
  | some call =>
    have hvalid : validAprsisCall call = true ↔ 3 ≤ call.length ∧ call.length ≤ 12 := by
      rw [validAprsisCall]
      split_ifs with hlong hshort
      · simp only [false_iff]
        omega
      · simp only [false_iff]
        omega
      · simp only [true_iff]
        omega
    rw [Option.any_some, Bool.not_eq_false', hvalid, CallFits]
    exact ⟨fun h _ heq => Option.some.inj heq ▸ h, fun h => h call rfl⟩

/-- The degrees or radians, after `locate`. -/
def FloatOps.located (degrees : FloatVar → F) (dest : FloatVar) : F :=
  if ops.inRange (degrees .mylat) (degrees .mylng) then ops.radians dest (degrees dest)
  else degrees dest

/-- Only the degrees change. -/
theorem locate_eq (cfg : CfgVars F) :
    locate ops cfg = ({ cfg with floats := ops.located cfg.floats },
      ops.inRange (cfg.floats .mylat) (cfg.floats .mylng)) := by
  have hlocated : ops.located cfg.floats = if ops.inRange (cfg.floats .mylat) (cfg.floats .mylng)
      then fun dest => ops.radians dest (cfg.floats dest) else cfg.floats := by
    funext dest
    rw [FloatOps.located]
    split <;> rfl
  rw [locate, hlocated]
  split_ifs with h
  · rw [h]
    congr 2
    funext dest
    cases dest <;> rfl
  · rw [Bool.not_eq_true] at h
    rw [h]

/-- The strings that are set when the file has been read. -/
def completed (logDir : Option (List UInt8)) (cfg : CfgVars F) : CfgVars F :=
  (((cfg.setString .logdir (some ((logDir.or (cfg.strings .logdir)).getD (ascii ".")))).setString
    .mycall (some ((cfg.strings .mycall).getD (ascii "NOCALLDEFINED")))).setString
    .myemail (some ((cfg.strings .myemail).getD (ascii "notdefined@notdefined")))).setString
    .soundDevice (if (cfg.strings .soundInFile).isSome then none
      else some ((cfg.strings .soundDevice).getD (ascii "default")))

/-- Each of them depends on its own variable only. -/
theorem completed_eq (logDir : Option (List UInt8)) (cfg : CfgVars F) :
    chooseSound (defineSound (defineMyemail (checkMycall (defineLogdir logDir cfg)).1)) =
      completed logDir cfg := by
  rw [defineLogdir_eq, checkMycall_eq, defineMyemail_eq, chooseSound_eq, completed]
  simp only [CfgVars.setString_strings, reduceCtorEq, if_false]

/-- The variables when the configuration is complete. -/
def Vars.completed (v : Vars F) : Vars F :=
  { v with
    cfg := { Gnuais.completed v.cmd.logDir v.cfg with
      floats := ops.located v.cfg.floats
      newUplinkConfig := [] }
    uplinkConfig := v.cfg.newUplinkConfig
    haveMyLoc := ops.inRange (v.cfg.floats .mylat) (v.cfg.floats .mylng) }

/-- The configuration is completed, unless the callsign does not fit. -/
theorem completeConfig_eq (v : Vars F) (hpidfile : v.pidfile = none) :
    completeConfig ops v =
      if (v.cfg.strings .mycall).any fun call => !validAprsisCall call then
        some (-1, v.completed ops)
      else some (0, { v.completed ops with
        pidfile := some ((v.cmd.logDir.or (v.cfg.strings .logdir)).getD (ascii ".") ++ [47] ++
          v.cmd.logname ++ ascii ".pid") }) := by
  have hfailed : (checkMycall (defineLogdir v.cmd.logDir v.cfg)).2 =
      (v.cfg.strings .mycall).any fun call => !validAprsisCall call := by
    rw [defineLogdir_eq, checkMycall_eq]
    simp only [CfgVars.setString_strings, reduceCtorEq, if_false]
  have hlogdir : (completed v.cmd.logDir v.cfg).strings .logdir =
      some ((v.cmd.logDir.or (v.cfg.strings .logdir)).getD (ascii ".")) := by
    simp only [completed, CfgVars.setString_strings, reduceCtorEq, if_false, if_true]
  rw [completeConfig]
  dsimp only
  rw [completed_eq, locate_eq, hfailed]
  dsimp only
  split
  · rfl
  · rw [hlogdir, hpidfile, Option.bind_eq_bind, Option.bind_some, definePidfile_none]
    rfl

/-- The variables when the file has been read, and nothing else has been done. -/
def Vars.read (cmd : CmdVars) (settings : List Setting) : Vars F :=
  { Vars.initial ops cmd with cfg := applyAll ops.atof settings (Vars.initial ops cmd).cfg }

/-- The last string that the settings give a variable. -/
theorem read_strings (cmd : CmdVars) (settings : List Setting)
    {dest : StringVar} (hin : dest ≠ .soundInFile) (hout : dest ≠ .soundOutFile) :
    (Vars.read ops cmd settings).cfg.strings dest = lastString dest settings := by
  have hstrings := applyAll_strings ops.atof dest settings (Vars.initial ops cmd).cfg
  refine hstrings.trans ?_
  cases dest <;> first | exact Option.or_none .. | contradiction

/-- What the program starts with comes from the command line and the settings. -/
theorem startsWith_completed (cmd : CmdVars) (settings : List Setting) :
    Vars.StartsWith { (Vars.read ops cmd settings).completed ops with
      pidfile := some ((cmd.logDir.or ((Vars.read ops cmd settings).cfg.strings .logdir)).getD
        (ascii ".") ++ [47] ++ cmd.logname ++ ascii ".pid") } ops cmd settings := by
  have hstrings : ∀ dest, (Vars.read ops cmd settings).cfg.strings dest =
      (lastString dest settings).or ((Vars.initial ops cmd).cfg.strings dest) := fun dest =>
    applyAll_strings ops.atof dest settings _
  have hplain : ∀ dest, dest ≠ .soundInFile → dest ≠ .soundOutFile →
      (Vars.read ops cmd settings).cfg.strings dest = lastString dest settings := fun dest =>
    read_strings ops cmd settings
  have hcmd : (Vars.read ops cmd settings).cmd = cmd := rfl
  have hfloats : ∀ dest, (Vars.read ops cmd settings).cfg.floats dest =
      degreesOf ops settings dest := fun dest => applyAll_floats ops.atof dest settings _
  have hfile : (Vars.read ops cmd settings).cfg.strings .soundInFile = soundInFileOf cmd settings :=
    hstrings .soundInFile
  refine
    { sameCmd := rfl
      logdir := ?_
      mycall := ?_
      myemail := ?_
      soundInFile := ?_
      soundDevice := ?_
      soundOutFile := ?_
      strings := fun dest hdest => ?_
      haveMyLoc := ?_
      floats := fun dest => ?_
      ints := fun dest => (applyAll_ints ops.atof dest settings _).trans ?_
      skipType := fun i => applyAll_skipType ops.atof i settings _
      uplinks := (applyAll_uplinks ops.atof settings _).trans (List.append_nil _)
      pidfile := ?_ }
  · simp [Vars.completed, completed, CfgVars.setString_strings, hcmd, hplain, logdirOf]
  · simp [Vars.completed, completed, CfgVars.setString_strings, hplain]
  · simp [Vars.completed, completed, CfgVars.setString_strings, hplain]
  · simp [Vars.completed, completed, CfgVars.setString_strings, hfile]
  · simp [Vars.completed, completed, CfgVars.setString_strings, hfile, hplain]
  · simp [Vars.completed, completed, CfgVars.setString_strings, hstrings, Vars.initial]
  · simp only [List.mem_cons, List.not_mem_nil, or_false] at hdest
    obtain rfl | rfl | rfl | rfl | rfl := hdest <;>
      simp [Vars.completed, completed, CfgVars.setString_strings, hplain]
  · simp only [Vars.completed, hfloats]
  · simp only [Vars.completed, FloatOps.located, hfloats]
  · cases dest <;> rfl
  · simp [hplain, logdirOf]

/-- A log that goes to a file has a directory, or the program does not start. -/
theorem parseCmdline_logs {options : List CmdOption} {cmd : CmdVars}
    (h : parseCmdline options = some cmd) (hdest : cmd.logDest = lFile) :
    ∃ dir, cmd.logDir = some dir := by
  rw [parseCmdline] at h
  dsimp only at h
  split at h
  · cases h
  · rename_i hok
    obtain rfl := Option.some.inj h
    exact Option.ne_none_iff_exists'.mp fun hnone => hok (.inr ⟨hdest, hnone⟩)

section File

variable (ops : FloatOps F) (behind : ℕ → List UInt8) (cmd : CmdVars) {file : List UInt8}

/-- The file is read first; behind an error in it nothing is completed. -/
theorem readConfig_eq : readConfig ops behind (some file) (Vars.initial ops cmd) =
    (readCfgfile (cfgCmds ops.atof) behind file (Vars.initial ops cmd).cfg).bind fun r =>
      if r.ret ≠ 0 then some (-1, { Vars.initial ops cmd with cfg := r.cfg })
      else completeConfig ops { Vars.initial ops cmd with cfg := r.cfg } := rfl

/-- A file without lines that are wrong. -/
theorem readConfig_passes (h : ∀ line ∈ pieces 10 cfglineLen file, Passes line) :
    ∃ ret v, readConfig ops behind (some file) (Vars.initial ops cmd) = some (ret, v) ∧
      (ret = 0 ↔ CallFits (lastString .mycall ((pieces 10 cfglineLen file).filterMap settingOf))) ∧
      (ret = 0 → v.StartsWith ops cmd ((pieces 10 cfglineLen file).filterMap settingOf)) := by
  have hreading : Reading ops.atof (Vars.initial ops cmd).cfg 0 _
      (readCfgfile (cfgCmds ops.atof) behind file (Vars.initial ops cmd).cfg) :=
    readCfgfileLoop_reading behind (Nat.le_refl _) 0 _
  rw [readConfig_eq, hreading.eq_of_passes h]
  generalize (pieces 10 cfglineLen file).filterMap settingOf = settings
  have hcomplete := completeConfig_eq ops (Vars.read ops cmd settings) rfl
  have hstarts := startsWith_completed ops cmd settings
  have hread : ({ Vars.initial ops cmd with
      cfg := applyAll ops.atof settings (Vars.initial ops cmd).cfg } : Vars F) =
        Vars.read ops cmd settings := rfl
  have hret : ¬ (0 : ℤ) ≠ 0 := not_not.mpr rfl
  rw [Option.bind_some, if_neg hret, hread, hcomplete,
    read_strings ops cmd settings StringVar.noConfusion StringVar.noConfusion, ← any_invalid_iff]
  cases hfits : (lastString .mycall settings).any fun call => !validAprsisCall call with
  | true => exact ⟨_, _, if_pos rfl, iff_of_false (by decide) (by decide), fun h => absurd h (by decide)⟩
  | false => exact ⟨_, _, if_neg Bool.false_ne_true, iff_of_true rfl rfl, fun _ => hstarts⟩

/-- Any other file. -/
theorem readConfig_stops (h : ¬ ∀ line ∈ pieces 10 cfglineLen file, Passes line) (v : Vars F) :
    readConfig ops behind (some file) (Vars.initial ops cmd) ≠ some (0, v) := by
  have hreading : Reading ops.atof (Vars.initial ops cmd).cfg 0 _
      (readCfgfile (cfgCmds ops.atof) behind file (Vars.initial ops cmd).cfg) :=
    readCfgfileLoop_reading behind (Nat.le_refl _) 0 _
  rw [readConfig_eq]
  generalize pieces 10 cfglineLen file = lines at hreading h
  generalize readCfgfile (cfgCmds ops.atof) behind file (Vars.initial ops cmd).cfg = r at hreading ⊢
  cases hreading with
  | all hpasses => exact absurd hpasses h
  | wrong _ _ =>
    intro heq
    exact absurd (Prod.mk.inj (Option.some.inj heq)).1 (by decide)
  | undefined _ _ =>
    intro heq
    cases heq

variable (file) in
/-- The program starts if and only if no line of the file is wrong and a callsign, if the
file has one, has a length that it may have. It starts with the last settings of the file,
those of the command line and the defaults, and logs to a file of a directory that the
command line names. Which defaults there are, and which setting counts, is
`Vars.StartsWith`. -/
theorem startup_iff {options : List CmdOption} (hcmd : parseCmdline options = some cmd) :
    ((∃ v, readConfig ops behind (some file) (Vars.initial ops cmd) = some (0, v)) ↔
      (∀ line ∈ pieces 10 cfglineLen file, Passes line) ∧
        CallFits (lastString .mycall ((pieces 10 cfglineLen file).filterMap settingOf))) ∧
    ∀ v, readConfig ops behind (some file) (Vars.initial ops cmd) = some (0, v) →
      v.StartsWith ops cmd ((pieces 10 cfglineLen file).filterMap settingOf) ∧
        (cmd.logDest = lFile → v.cfg.strings .logdir = cmd.logDir) := by
  by_cases h : ∀ line ∈ pieces 10 cfglineLen file, Passes line
  · obtain ⟨ret, v, hread, hret, hstarts⟩ := readConfig_passes ops behind cmd h
    rw [hread]
    refine ⟨⟨fun ⟨v', heq⟩ => ?_, fun ⟨_, hcall⟩ => ?_⟩, fun v' heq => ?_⟩
    · exact ⟨h, hret.mp (Prod.mk.inj (Option.some.inj heq)).1⟩
    · exact ⟨v, by rw [hret.mpr hcall]⟩
    · obtain ⟨rfl, rfl⟩ := Prod.mk.inj (Option.some.inj heq)
      refine ⟨hstarts rfl, fun hdest => (hstarts rfl).logdir.trans ?_⟩
      obtain ⟨dir, hdir⟩ := parseCmdline_logs hcmd hdest
      rw [logdirOf, hdir]
      rfl
  · exact ⟨iff_of_false (fun ⟨v, hv⟩ => readConfig_stops ops behind cmd h v hv) fun hall => h hall.1,
      fun v hv => absurd hv (readConfig_stops ops behind cmd h v)⟩

end File

/-- Without a type for degrees. -/
def noFloats : FloatOps Unit := ⟨fun _ => (), fun _ _ => false, fun _ => (), fun _ => (), ()⟩

/-- A name for the log, and a file with a comment, a callsign and a directive in short. -/
theorem startup_iff_short :
    ∃ v, readConfig noFloats (fun _ => []) (some (ascii "# mine\nMyCall OH7LZB\nskip 5\n"))
        (Vars.initial noFloats { CmdVars.initial with logname := ascii "ais" }) = some (0, v) ∧
      v.cfg.strings .mycall = some (ascii "OH7LZB") ∧ v.pidfile = some (ascii "./ais.pid") ∧
      v.cfg.skipType 5 = 1 := by
  have hcmd : parseCmdline [.n (ascii "ais")] =
      some { CmdVars.initial with logname := ascii "ais" } := by decide
  have hstart := startup_iff noFloats (fun _ => [])
    { CmdVars.initial with logname := ascii "ais" } (ascii "# mine\nMyCall OH7LZB\nskip 5\n") hcmd
  have hsettings : (pieces 10 cfglineLen (ascii "# mine\nMyCall OH7LZB\nskip 5\n")).filterMap
      settingOf = [.string .mycall (ascii "OH7LZB"), .skipType 5] := by decide +kernel
  rw [hsettings] at hstart
  obtain ⟨v, hv⟩ := hstart.1.mpr ⟨by decide +kernel, fun call hcall => by
    obtain rfl := Option.some.inj hcall
    decide⟩
  have hstarts := (hstart.2 v hv).1
  exact ⟨v, hv, hstarts.mycall, hstarts.pidfile, hstarts.skipType 5⟩

end Config

end Gnuais
