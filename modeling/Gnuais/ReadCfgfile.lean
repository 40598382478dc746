import Gnuais.CmdParse
import Gnuais.Lib.Lines

/-!
# Reading the configuration file

`read_cfgfile` reads its file line by line into one buffer and runs a directive in
each line. A directive has no effect but on its variable, so a file means a list of
settings, up to the first line that is wrong.

* `readCfgfile` — the code.
* `directives`, `lineMeaning` — what a line means.
* `readCfgfile_reading` — the variables become what the lines mean.

The file is found and opened, and reading it does not fail. What stands in the buffer
behind the line that was read is arbitrary.
-/

namespace Gnuais

open CString Lines

variable {F : Type}

/-! ## `read_cfgfile`

`fgets` gives a line with its line feed, or a part of a line if the buffer is full; the
next turn then reads the rest as a line of its own. `lines` is what the turns get. -/

/-- `CFGLINE_LEN` -/
def cfglineLen : ℕ := 102400

/-- What `read_cfgfile` returns and leaves, with the number of lines it has read, which
is that of the line it complains about. -/
structure CfgRead (F : Type) where
  /-- 0, or 2 for a file with a line that is wrong -/
  ret : ℤ
  /-- the variables -/
  cfg : CfgVars F
  /-- the number of lines -/
  n : ℕ

/-- The loop of `read_cfgfile`. `behind n` stands in the buffer behind the terminator when
`n` lines have been read before. -/
def readCfgfileLoop (cmds : List (CfgCmd F)) (behind : ℕ → List UInt8) :
    ℕ → List UInt8 → ℕ → CfgVars F → Option (CfgRead F)
  | 0, _, n, cfg => some ⟨0, cfg, n⟩
  | turns + 1, file, n, cfg =>
    if file = [] then some ⟨0, cfg, n⟩
    else do
      let (line, file) := fgets 10 cfglineLen file
      let r ← cmdparse cmds (line ++ 0 :: behind n) cfg
      if r.ret < 0 then return ⟨2, r.cfg, n + 1⟩
      else readCfgfileLoop cmds behind turns file (n + 1) r.cfg

/-- `read_cfgfile`: each turn reads a character at least. -/
def readCfgfile (cmds : List (CfgCmd F)) (behind : ℕ → List UInt8) (file : List UInt8)
    (cfg : CfgVars F) : Option (CfgRead F) :=
  readCfgfileLoop cmds behind file.length file 0 cfg

/-! ## Settings

A setting is what a directive does to the variables, without the words it was written in. -/

/-- A value for a variable, a packet type to skip, or an uplink. A number of degrees is
left as its text. -/
inductive Setting where
  /-- a copy of an argument -/
  | string (dest : StringVar) (s : List UInt8)
  /-- a number, or the number a word stands for -/
  | int (dest : IntVar) (n : ℤ)
  /-- degrees, of which `atof` makes a number -/
  | float (dest : FloatVar) (text : List UInt8)
  /-- a message type to skip -/
  | skipType (i : Fin (maxAisPacketType + 1))
  /-- a label and an address; there is one protocol only -/
  | uplink (name url : List UInt8)
  deriving DecidableEq

/-- The variables with a setting. -/
def Setting.apply (atof : List UInt8 → F) : Setting → CfgVars F → CfgVars F
  | .string dest s, cfg => cfg.setString dest (some s)
  | .int dest n, cfg => cfg.setInt dest n
  | .float dest text, cfg => { cfg with floats := Function.update cfg.floats dest (atof text) }
  | .skipType i, cfg => { cfg with skipType := Function.update cfg.skipType i 1 }
  | .uplink name url, cfg =>
    { cfg with newUplinkConfig := ⟨uplinkJson, some name, some url⟩ :: cfg.newUplinkConfig }

/-- The variables after some settings. -/
def applyAll (atof : List UInt8 → F) (settings : List Setting) (cfg : CfgVars F) : CfgVars F :=
  settings.foldl (fun cfg s => s.apply atof cfg) cfg

/-! ## What a line means

Directives are read here without the code: no `argv`, no pointers, and no return values. A
directive reads its arguments as a list of strings, and says what they mean. -/

/-- What the arguments of a line mean: `undefined` are those that the code must not be
given. A line that must not be given has no defined effect, so nothing is said about what
the program does behind it. -/
inductive Meaning where
  /-- an empty line or a comment -/
  | nothing
  /-- a directive that is right -/
  | setting (s : Setting)
  /-- a line the program complains about and stops at -/
  | wrong
  /-- a line it must not be given -/
  | undefined
  deriving DecidableEq

/-- What arguments mean to a directive. -/
abbrev Reader := List (List UInt8) → Meaning

/-- A directive that looks at one argument. -/
def oneArgument (f : List UInt8 → Meaning) : Reader
  | [] => .wrong
  | s :: _ => f s

instance decidableSumsFit : ∀ t ns, Decidable (SumsFit t ns)
  | _, [] => .isTrue trivial
  | t, n :: ns =>
    have := decidableSumsFit (t + n) ns
    inferInstanceAs (Decidable (InTime (t + n) ∧ SumsFit (t + n) ns))

instance : DecidablePred IntervalFits := fun s =>
  inferInstanceAs (Decidable ((∀ item ∈ (intervalItems [] s).1, InInt (itemSeconds item)) ∧
    SumsFit 0 ((intervalItems [] s).1.map itemSeconds ++ [atoi (intervalItems [] s).2])))

/-- The argument itself. -/
def readString (dest : StringVar) : Reader := oneArgument fun s => .setting (.string dest s)

/-- The number that `atoi` makes of it. -/
def readInt (dest : IntVar) : Reader := oneArgument fun s => .setting (.int dest (atoi s))

/-- Its text. -/
def readFloat (dest : FloatVar) : Reader := oneArgument fun s => .setting (.float dest s)

/-- 1 for a word that switches on, and 0 for any other. -/
def readToggle (dest : IntVar) : Reader := oneArgument fun s =>
  .setting (.int dest (if toggleWords.any (strcasecmpEq s) then 1 else 0))

/-- The sum of its items, if no item and no sum overflows. -/
def readInterval (dest : IntVar) : Reader := oneArgument fun s =>
  if IntervalFits s then .setting (.int dest ((intervalSeconds s).bmod (2 ^ 32))) else .undefined

/-- A number below the types there are is the index of one. -/
theorem atoi_lt {s : List UInt8} (h : 0 < atoi s ∧ atoi s ≤ maxAisPacketType) :
    (atoi s).toNat < maxAisPacketType + 1 := by omega

/-- A type that exists, other than 0. -/
def readSkipType : Reader := oneArgument fun s =>
  if h : 0 < atoi s ∧ atoi s ≤ maxAisPacketType then
    .setting (.skipType ⟨(atoi s).toNat, atoi_lt h⟩)
  else .wrong

/-- One of the words. -/
def readSoundCh (dest : IntVar) : Reader := oneArgument fun s =>
  match soundChannelWords.find? fun word => strcasecmpEq s word.1 with
  | some word => .setting (.int dest word.2)
  | none => .wrong

/-- A label, a protocol and an address, which is not checked for. -/
def readUplink : Reader
  | name :: proto :: more =>
    if strcasecmpEq proto (ascii "json") then
      match more with
      | [] => .undefined
      | url :: _ => .setting (.uplink name url)
    else .wrong
  | _ => .wrong

theorem readUplink_json {proto : List UInt8} (h : strcasecmpEq proto (ascii "json") = true)
    (name url : List UInt8) (more : List (List UInt8)) :
    readUplink (name :: proto :: url :: more) = .setting (.uplink name url) := if_pos h

/-- The directives, in the order in which they are looked for. -/
def directives : List (String × Reader) :=
  [("logdir", readString .logdir),
    ("mycall", readString .mycall),
    ("myemail", readString .myemail),
    ("latitude", readFloat .mylat),
    ("longitude", readFloat .mylng),
    ("statsinterval", readInterval .statsInterval),
    ("expiryinterval", readInterval .expiryInterval),
    ("uplink", readUplink),
    ("mysql_host", readString .mysqlHost),
    ("mysql_db", readString .mysqlDb),
    ("mysql_user", readString .mysqlUser),
    ("mysql_password", readString .mysqlPassword),
    ("mysql_keepsmall", readToggle .mysqlKeepsmall),
    ("mysql_oldlimit", readInt .mysqlOldlimit),
    ("sounddevice", readString .soundDevice),
    ("soundinfile", readString .soundInFile),
    ("soundoutfile", readString .soundOutFile),
    ("soundchannels", readSoundCh .soundChannels),
    ("soundlevellog", readInt .soundLevellog),
    ("serialport", readString .serialPort),
    ("serial_port", readString .serialPort),
    ("skip_type", readSkipType)]

/-- A directive can be abbreviated. -/
def findDirective (directive : List UInt8) : Option (String × Reader) :=
  directives.find? fun d => strncasecmpEq (ascii d.1) directive directive.length

/-- What the arguments of a line mean; a comment starts with `#`. -/
def argsMeaning : List (List UInt8) → Meaning
  | [] => .nothing
  | directive :: args =>
    if directive.head? = some 35 then .nothing
    else (findDirective directive).elim .wrong fun d => d.2 args

/-- What a line means, up to the first terminator in it. An escape that the line ends in
makes it mean nothing. -/
def lineMeaning (line : List UInt8) : Meaning :=
  (tokens 255 (line.takeWhile (· ≠ 0))).elim .nothing argsMeaning

/-! ## The handlers

The handlers that look at one argument share their proof: they check the number of
arguments, read the second one, and store a value. -/

section Handlers

variable (atof : List UInt8 → F)

/-- What comes of a meaning: whether it is an error, and the variables. -/
def Meaning.result (cfg : CfgVars F) : Meaning → Option (Bool × CfgVars F)
  | .nothing => some (false, cfg)
  | .setting s => some (false, s.apply atof cfg)
  | .wrong => some (true, cfg)
  | .undefined => none

/-- A handler does what its arguments mean. It is asked for any arguments, also for too
few of them. -/
def Handles (function : Handler F) (read : Reader) : Prop :=
  ∀ (args : ParsedArgs) (directive : List UInt8) (strs : List (List UInt8)),
    args.Holds (directive :: strs) → ∀ cfg,
      ((function args cfg).run []).map (fun r => (decide (r.1.1 < 0), r.1.2)) =
        (read strs).result atof cfg

variable {atof}

/-- A handler that stores what it makes of its second argument. -/
theorem handles_oneArgument {function : Handler F} {f : List UInt8 → Meaning}
    {k : CfgVars F → List UInt8 → Handling (ℤ × CfgVars F)}
    (hform : ∀ args cfg, function args cfg =
      if args.argc < 2 then return (-1, cfg) else argString args 1 >>= k cfg)
    (hk : ∀ cfg s, 0 ∉ s →
      ((k cfg s).run [1]).map (fun r => (decide (r.1.1 < 0), r.1.2)) = (f s).result atof cfg) :
    Handles atof function (oneArgument f) := by
  intro args directive strs h cfg
  obtain ⟨hargc, hstrings, -⟩ := h
  cases strs with
  | nil =>
    rw [hform, if_pos (hargc ▸ Nat.lt_succ_self 1)]
    rfl
  | cons s strs =>
    have hs : args.arg 1 = some (some s) := hstrings 1 (Nat.succ_lt_succ (Nat.succ_pos _))
    have hmany : ¬ args.argc < 2 := by
      rw [hargc, List.length_cons, List.length_cons]
      omega
    rw [hform, if_neg hmany, StateT.run_bind, argString_run [] hs, Option.bind_eq_bind,
      Option.bind_some]
    exact hk cfg s (zero_not_mem_arg hs)

/-- The handlers, one by one. -/
theorem handles_doString (dest : StringVar) : Handles atof (doString dest) (readString dest) :=
  handles_oneArgument (k := fun cfg s => return (0, cfg.setString dest (some s)))
    (fun args cfg => by rw [doString, hstrdup, bind_map_left]) fun _ _ _ => rfl

theorem handles_doInt (dest : IntVar) : Handles atof (doInt dest) (readInt dest) :=
  handles_oneArgument (k := fun cfg s => return (0, cfg.setInt dest (atoi s)))
    (fun _ _ => rfl) fun _ _ _ => rfl

theorem handles_doFloat (dest : FloatVar) : Handles atof (doFloat atof dest) (readFloat dest) :=
  handles_oneArgument
    (k := fun cfg s => return (0, { cfg with floats := Function.update cfg.floats dest (atof s) }))
    (fun _ _ => rfl) fun _ _ _ => rfl

theorem handles_doToggle (dest : IntVar) : Handles atof (doToggle dest) (readToggle dest) := by
  refine handles_oneArgument (k := fun cfg s => if toggleWords.any (strcasecmpEq s) then
    return (1, cfg.setInt dest 1) else return (0, cfg.setInt dest 0)) (fun _ _ => rfl) ?_
  intro cfg s _
  split <;> rfl

theorem handles_doInterval (dest : IntVar) : Handles atof (doInterval dest) (readInterval dest) := by
  refine handles_oneArgument (k := fun cfg s => do
    let t ← liftM (parseInterval s)
    return (0, cfg.setInt dest (t.bmod (2 ^ 32)))) (fun _ _ => rfl) ?_
  intro cfg s hs
  by_cases hfits : IntervalFits s
  · rw [(parseInterval_eq_some hs).mpr ⟨hfits, rfl⟩, if_pos hfits]
    rfl
  · have hnone : parseInterval s = none :=
      Option.eq_none_iff_forall_ne_some.mpr fun t ht => hfits ((parseInterval_eq_some hs).mp ht).1
    rw [hnone, if_neg hfits]
    rfl

theorem handles_doSkipType : Handles atof (doSkipType (F := F)) readSkipType := by
  refine handles_oneArgument (k := fun cfg s =>
    if h : 0 < atoi s ∧ atoi s ≤ maxAisPacketType then
      return (0, { cfg with
        skipType := Function.update cfg.skipType ⟨(atoi s).toNat, by omega⟩ 1 })
    else return (-1, cfg)) (fun _ _ => rfl) ?_
  intro cfg s _
  split <;> rfl

theorem handles_doSoundCh (dest : IntVar) : Handles atof (doSoundCh dest) (readSoundCh dest) := by
  refine handles_oneArgument (k := fun cfg s =>
    match soundChannelWords.find? fun word => strcasecmpEq s word.1 with
    | some word => return (0, cfg.setInt dest word.2)
    | none => return (-1, cfg)) (fun _ _ => rfl) ?_
  intro cfg s _
  cases hword : soundChannelWords.find? fun word => strcasecmpEq s word.1 with
  | none => rfl
  | some word => rfl

/-- The one handler that looks at more arguments. -/
theorem handles_doUplink : Handles atof (doUplink (F := F)) readUplink := by
  intro args directive strs h cfg
  obtain ⟨hargc, hstrings, hend⟩ := h
  rcases strs with _ | ⟨name, _ | ⟨proto, more⟩⟩
  · have hfew : args.argc < 3 := hargc.trans_lt (Nat.succ_lt_succ (Nat.succ_pos 1))
    rw [doUplink, if_pos hfew]
    rfl
  · have hfew : args.argc < 3 := hargc.trans_lt (Nat.lt_succ_self 2)
    rw [doUplink, if_pos hfew]
    rfl
  have hname : args.arg 1 = some (some name) := hstrings 1 (by simp)
  have hproto : args.arg 2 = some (some proto) := hstrings 2 (by simp)
  have hmany : ¬ args.argc < 3 := by
    rw [hargc, List.length_cons, List.length_cons, List.length_cons]
    omega
  rw [doUplink, if_neg hmany, StateT.run_bind, argString_run [] hproto, Option.bind_eq_bind,
    Option.bind_some]
  by_cases hjson : strcasecmpEq proto (ascii "json") = true
  · simp only [hjson, if_true, StateT.run_bind, hstrdup_run _ hname, Option.bind_eq_bind,
      Option.bind_some]
    cases more with
    | nil =>
      -- the fourth entry is `NULL`
      have hnull : args.arg 3 = some none := by rwa [hargc] at hend
      have hread : readUplink [name, proto] = .undefined := if_pos hjson
      rw [hstrdup_null _ hnull, hread]
      rfl
    | cons url more =>
      have hurl : args.arg 3 = some (some url) := hstrings 3 (by simp)
      rw [hstrdup_run _ hurl, readUplink_json hjson]
      rfl
  · have hread : readUplink (name :: proto :: more) = .wrong := if_neg hjson
    rw [if_neg hjson, hread]
    rfl

/-- The table of the code and the directives agree, entry by entry. -/
theorem cfgCmds_directives (atof : List UInt8 → F) :
    List.Forall₂ (fun cmd d => cmd.name = d.1 ∧ Handles atof cmd.function d.2) (cfgCmds atof)
      directives := by
  have hstring : ∀ dest, Handles atof (doString dest) (readString dest) := handles_doString
  refine .cons ⟨rfl, hstring _⟩ <| .cons ⟨rfl, hstring _⟩ <| .cons ⟨rfl, hstring _⟩ <|
    .cons ⟨rfl, handles_doFloat _⟩ <| .cons ⟨rfl, handles_doFloat _⟩ <|
    .cons ⟨rfl, handles_doInterval _⟩ <| .cons ⟨rfl, handles_doInterval _⟩ <|
    .cons ⟨rfl, handles_doUplink⟩ <| .cons ⟨rfl, hstring _⟩ <| .cons ⟨rfl, hstring _⟩ <|
    .cons ⟨rfl, hstring _⟩ <| .cons ⟨rfl, hstring _⟩ <| .cons ⟨rfl, handles_doToggle _⟩ <|
    .cons ⟨rfl, handles_doInt _⟩ <| .cons ⟨rfl, hstring _⟩ <| .cons ⟨rfl, hstring _⟩ <|
    .cons ⟨rfl, hstring _⟩ <| .cons ⟨rfl, handles_doSoundCh _⟩ <| .cons ⟨rfl, handles_doInt _⟩ <|
    .cons ⟨rfl, hstring _⟩ <| .cons ⟨rfl, hstring _⟩ <| .cons ⟨rfl, handles_doSkipType⟩ .nil

end Handlers

/-! ## A line

The table is looked up by the same rule on both sides, so it is enough that the entries
agree. -/

/-- Where the entries of two lists agree, so does what is found in them. -/
theorem find?_forall₂ {α β : Type} {R : α → β → Prop} {p : α → Bool} {q : β → Bool}
    (hpq : ∀ x y, R x y → p x = q y) {xs : List α} {ys : List β} (h : List.Forall₂ R xs ys) :
    xs.find? p = none ∧ ys.find? q = none ∨
      ∃ x y, xs.find? p = some x ∧ ys.find? q = some y ∧ R x y := by
  induction h with
  | nil => exact .inl ⟨rfl, rfl⟩
  | @cons x y xs ys hxy _ ih =>
    cases hx : p x with
    | true =>
      exact .inr ⟨x, y, List.find?_cons_of_pos hx, List.find?_cons_of_pos (hpq x y hxy ▸ hx), hxy⟩
    | false =>
      have hy : ¬ q y = true := by
        rw [← hpq x y hxy, hx]
        exact Bool.false_ne_true
      rwa [List.find?_cons_of_neg (by rw [hx]; exact Bool.false_ne_true),
        List.find?_cons_of_neg hy]

/-- The command that is found for a directive, and what the directive means. -/
theorem findCmd_directive (atof : List UInt8 → F) (directive : List UInt8) :
    findCmd (cfgCmds atof) directive = none ∧ findDirective directive = none ∨
      ∃ cmd d, findCmd (cfgCmds atof) directive = some cmd ∧ findDirective directive = some d ∧
        Handles atof cmd.function d.2 := by
  have hfind := find?_forall₂ (p := fun cmd : CfgCmd F =>
      strncasecmpEq (ascii cmd.name) directive directive.length)
    (q := fun d : String × Reader => strncasecmpEq (ascii d.1) directive directive.length)
    (fun cmd d h => by rw [h.1]) (cfgCmds_directives atof)
  exact hfind.imp_right fun ⟨cmd, d, hcmd, hd, h⟩ => ⟨cmd, d, hcmd, hd, h.2⟩

/-- `cmdparse` does what the line means. -/
theorem cmdparse_meaning (atof : List UInt8 → F) (line rest : List UInt8) (cfg : CfgVars F) :
    (cmdparse (cfgCmds atof) (line ++ 0 :: rest) cfg).map (fun r => (decide (r.ret < 0), r.cfg)) =
      (lineMeaning line).result atof cfg := by
  obtain ⟨hzero, rest', hline⟩ := cStringList_some (cStringList_cut line rest)
  have hparse := parseArgs_tokens hzero rest'
  rw [hline, lineMeaning]
  cases htokens : tokens 255 (line.takeWhile (· ≠ 0)) with
  | none =>
    rw [htokens] at hparse
    obtain ⟨r, hr, hargc⟩ := hparse
    rw [cmdparse_empty _ hr hargc]
    rfl
  | some args =>
    rw [htokens] at hparse
    obtain ⟨mem, ptrs, hr, hstored⟩ := hparse
    cases hstored.strings with
    | nil =>
      rw [cmdparse_empty _ hr rfl]
      rfl
    | @cons pos directive ptrs args _ _ =>
      obtain ⟨mem', hstored', hrun⟩ := cmdparse_cons (cfgCmds atof) hr hstored cfg
      rw [hrun, Option.elim_some, argsMeaning]
      split
      · rfl
      · obtain ⟨hcmd, hd⟩ | ⟨cmd, d, hcmd, hd, hhandles⟩ := findCmd_directive atof directive
        · rw [hcmd, hd]
          rfl
        · rw [hcmd, hd, Option.elim_some, ← hhandles _ _ _ hstored'.holds cfg, Option.map_map]
          rfl

/-! ## A file

The loop stops at the first line that is wrong. The lines in front of it have been obeyed
by then: there is no way back from a setting. -/

/-- The setting that a line gives, if there is one. -/
def settingOf (line : List UInt8) : Option Setting :=
  match lineMeaning line with
  | .setting s => some s
  | _ => none

/-- A line that is passed. -/
def Passes (line : List UInt8) : Prop :=
  lineMeaning line ≠ .wrong ∧ lineMeaning line ≠ .undefined

instance : DecidablePred Passes := fun line =>
  inferInstanceAs (Decidable (lineMeaning line ≠ .wrong ∧ lineMeaning line ≠ .undefined))

/-- What a line that is passed makes of the variables. -/
theorem Passes.result {line : List UInt8} (h : Passes line) (atof : List UInt8 → F)
    (cfg : CfgVars F) : (lineMeaning line).result atof cfg =
      some (false, applyAll atof (settingOf line).toList cfg) := by
  obtain ⟨hwrong, hundefined⟩ := h
  rw [settingOf]
  cases hline : lineMeaning line with
  | nothing => rfl
  | setting s => rfl
  | wrong => exact absurd hline hwrong
  | undefined => exact absurd hline hundefined

/-- Settings in two parts. -/
theorem applyAll_append (atof : List UInt8 → F) (before after : List Setting) (cfg : CfgVars F) :
    applyAll atof (before ++ after) cfg = applyAll atof after (applyAll atof before cfg) :=
  List.foldl_append

/-- What `read_cfgfile` is to do, when `n` lines have been read before: the lines that are
passed are settings, and it comes to the end of the file, to a line that is wrong or to
one that the code must not be given. The first line that is not passed decides; what is
behind it is not looked at. -/
inductive Reading (atof : List UInt8 → F) (cfg : CfgVars F) (n : ℕ) :
    List (List UInt8) → Option (CfgRead F) → Prop where
  /-- every line is passed -/
  | all {lines : List (List UInt8)} (h : ∀ line ∈ lines, Passes line) :
      Reading atof cfg n lines
        (some ⟨0, applyAll atof (lines.filterMap settingOf) cfg, n + lines.length⟩)
  /-- the first line that is not passed is wrong -/
  | wrong {before after : List (List UInt8)} {line : List UInt8} (h : ∀ line ∈ before, Passes line)
      (hwrong : lineMeaning line = .wrong) :
      Reading atof cfg n (before ++ line :: after)
        (some ⟨2, applyAll atof (before.filterMap settingOf) cfg, n + (before.length + 1)⟩)
  /-- the first line that is not passed must not be given -/
  | undefined {before after : List (List UInt8)} {line : List UInt8}
      (h : ∀ line ∈ before, Passes line) (hundefined : lineMeaning line = .undefined) :
      Reading atof cfg n (before ++ line :: after) none

section Reading

variable {atof : List UInt8 → F}

/-- One setting, and then the others. -/
theorem applyAll_cons (line : List UInt8) (lines : List (List UInt8)) (cfg : CfgVars F) :
    applyAll atof ((line :: lines).filterMap settingOf) cfg =
      applyAll atof (lines.filterMap settingOf) (applyAll atof (settingOf line).toList cfg) := by
  cases hline : settingOf line with
  | none => rw [List.filterMap_cons_none hline]; rfl
  | some s => rw [List.filterMap_cons_some hline]; rfl

/-- A line that is passed, in front of others. -/
theorem Reading.cons {cfg : CfgVars F} {n : ℕ} {line : List UInt8} {lines : List (List UInt8)}
    {r : Option (CfgRead F)} (hline : Passes line)
    (h : Reading atof (applyAll atof (settingOf line).toList cfg) (n + 1) lines r) :
    Reading atof cfg n (line :: lines) r := by
  cases h with
  | all h =>
    rw [← applyAll_cons, Nat.add_assoc, Nat.add_comm 1]
    exact .all (List.forall_mem_cons.mpr ⟨hline, h⟩)
  | wrong h hwrong =>
    rw [← applyAll_cons, Nat.add_assoc, Nat.add_comm 1]
    exact .wrong (List.forall_mem_cons.mpr ⟨hline, h⟩) hwrong
  | undefined h hundefined => exact .undefined (List.forall_mem_cons.mpr ⟨hline, h⟩) hundefined

/-- From any line on. The induction is on what is left of the file. -/
theorem readCfgfileLoop_reading (behind : ℕ → List UInt8) {turns : ℕ} {file : List UInt8}
    (h : file.length ≤ turns) (n : ℕ) (cfg : CfgVars F) :
    Reading atof cfg n (pieces 10 cfglineLen file)
      (readCfgfileLoop (cfgCmds atof) behind turns file n cfg) := by
  have hnone : ∀ line ∈ ([] : List (List UInt8)), Passes line := fun _ h => absurd h List.not_mem_nil
  have hend : Reading atof cfg n (pieces 10 cfglineLen []) (some ⟨0, cfg, n⟩) := .all hnone
  induction turns generalizing file n cfg with
  | zero =>
    rw [List.length_eq_zero_iff.mp (Nat.le_zero.mp h)]
    exact hend
  | succ turns ih =>
    rw [readCfgfileLoop]
    split
    · rename_i hfile
      rw [hfile]
      exact hend
    · rename_i hfile
      have hsize : 2 ≤ cfglineLen := by decide
      have hlt := length_fgets_lt 10 hsize hfile
      have hline := cmdparse_meaning atof (fgets 10 cfglineLen file).1 (behind n) cfg
      rw [pieces_cons 10 hsize hfile]
      dsimp only
      -- an undefined line ends the run, a wrong one ends the loop, any other goes on
      cases hmeaning : lineMeaning (fgets 10 cfglineLen file).1 with
      | undefined =>
        rw [hmeaning] at hline
        rw [Option.map_eq_none_iff.mp hline]
        exact .undefined hnone hmeaning
      | wrong =>
        rw [hmeaning] at hline
        obtain ⟨r, hr, heq⟩ := Option.map_eq_some_iff.mp hline
        obtain ⟨hret, rfl⟩ := Prod.mk.inj heq
        rw [hr, Option.bind_eq_bind, Option.bind_some, if_pos (of_decide_eq_true hret)]
        exact .wrong hnone hmeaning
      | _ =>
        have hpasses : Passes (fgets 10 cfglineLen file).1 := by
          rw [Passes, hmeaning]
          exact ⟨Meaning.noConfusion, Meaning.noConfusion⟩
        rw [hpasses.result] at hline
        obtain ⟨r, hr, heq⟩ := Option.map_eq_some_iff.mp hline
        obtain ⟨hret, hcfg⟩ := Prod.mk.inj heq
        rw [hr, Option.bind_eq_bind, Option.bind_some, if_neg (of_decide_eq_false hret), hcfg]
        exact .cons hpasses (ih (by omega) (n + 1) _ (.all hnone))

/-- Any file is read as the lines in it mean: the settings up to the first line that is
wrong, whatever the buffer held. A line that is longer than the buffer counts as several
lines, which the meaning takes into account. -/
theorem readCfgfile_reading (behind : ℕ → List UInt8) (file : List UInt8) (cfg : CfgVars F) :
    Reading atof cfg 0 (pieces 10 cfglineLen file)
      (readCfgfile (cfgCmds atof) behind file cfg) :=
  readCfgfileLoop_reading behind (Nat.le_refl _) 0 cfg

end Reading

end Gnuais
