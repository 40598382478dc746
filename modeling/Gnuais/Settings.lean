import Gnuais.ConfigLine
import Gnuais.ReadCfgfile
import Mathlib.Tactic.IntervalCases

/-!
# Writing the configuration file

Each setting can be written as a line: the directive of its variable, and its value in
quotes with escapes for quotes, backslashes and line feeds. A file of such lines is read
as the settings it was written for, whatever their values (`readCfgfile_lines`).
-/

namespace Gnuais

open Buffer CString Lines

variable {F : Type}

/-! ## Quoted arguments

A line feed in an argument would end the line, so it is written as an escape. -/

/-- A character between quotes. -/
def quoteChar (c : UInt8) : List UInt8 :=
  if c = 34 ∨ c = 92 then [92, c] else if c = 10 then [92, 110] else [c]

/-- An argument in quotes. -/
def quote (arg : List UInt8) : List UInt8 := 34 :: (arg.flatMap quoteChar ++ [34])

/-- What is read of a character between quotes. -/
theorem readChar_quoteChar (c : UInt8) (s : List UInt8) :
    readChar (quoteChar c ++ s) = some (c, (quoteChar c).length) := by
  rw [quoteChar]
  split_ifs with hescape hfeed
  · obtain rfl | rfl := hescape <;> rfl
  · rw [hfeed]
    rfl
  · exact if_neg fun h => hescape (.inr h)

/-- No such character ends the string. -/
theorem not_atEnd_quoteChar (c : UInt8) (s : List UInt8) : ¬ AtEnd (quoteChar c ++ s) := by
  rw [quoteChar]
  split_ifs with hescape hfeed
  · simp [AtEnd]
  · simp [AtEnd]
  · simp [AtEnd, (not_or.mp hescape).1]

/-- An argument in quotes is read as the argument. -/
theorem unescape_quoteChar (arg tail : List UInt8) :
    unescape (arg.flatMap quoteChar ++ 34 :: tail) =
      some (arg, (arg.flatMap quoteChar).length + 1) := by
  induction arg with
  | nil => exact unescape_quote tail
  | cons c arg ih =>
    rw [List.flatMap_cons, List.append_assoc,
      unescape_cons (not_atEnd_quoteChar c _) (readChar_quoteChar c _), List.drop_left, ih,
      Option.map_some, List.length_append, Nat.add_assoc]

/-- The characters between quotes are those of the argument but a line feed, or of an
escape. -/
theorem mem_quote {c : UInt8} {arg : List UInt8} (h : c ∈ quote arg) : c = 34 ∨ c = 92 ∨ c = 110 ∨
    c ∈ arg ∧ c ≠ 10 := by
  rcases List.mem_cons.mp h with rfl | h
  · exact .inl rfl
  rcases List.mem_append.mp h with h | h
  · obtain ⟨b, hb, hc⟩ := List.mem_flatMap.mp h
    rw [quoteChar] at hc
    split_ifs at hc with hescape hfeed
    · rcases List.mem_pair.mp hc with rfl | rfl
      · exact .inr (.inl rfl)
      · exact hescape.imp_right .inl
    · rcases List.mem_pair.mp hc with rfl | rfl
      · exact .inr (.inl rfl)
      · exact .inr (.inr (.inl rfl))
    · rw [List.mem_singleton.mp hc]
      exact .inr (.inr (.inr ⟨hb, hfeed⟩))
  · exact .inl (List.mem_singleton.mp h)

/-- A directive, and arguments in quotes. -/
def directiveLine (directive : List UInt8) (args : List (List UInt8)) : List UInt8 :=
  directive ++ args.flatMap fun arg => 32 :: quote arg

/-- Arguments in quotes are found behind a blank, with the line feed at the end. -/
theorem tokens_quotes {left : ℕ} {args : List (List UInt8)} (hlen : args.length ≤ left)
    (hzero : ∀ arg ∈ args, 0 ∉ arg) :
    tokens left (((args.flatMap fun arg => 32 :: quote arg) ++ [10]).drop 1) = some args := by
  induction args generalizing left with
  | nil => exact tokens_blank left fun _ h => absurd h List.not_mem_nil
  | cons arg args ih =>
    cases left with
    | zero => exact absurd hlen (Nat.not_succ_le_zero _)
    | succ left =>
      obtain ⟨harg, hzero⟩ := List.forall_mem_cons.mp hzero
      have hdrop : (((arg :: args).flatMap fun arg => 32 :: quote arg) ++ [10]).drop 1 =
          34 :: (arg.flatMap quoteChar ++
            34 :: ((args.flatMap fun arg => 32 :: quote arg) ++ [10])) := by
        rw [List.flatMap_cons, quote]
        simp only [List.cons_append, List.append_assoc, List.nil_append, List.drop_succ_cons,
          List.drop_zero]
      have hrest : (arg.flatMap quoteChar ++
          34 :: ((args.flatMap fun arg => 32 :: quote arg) ++ [10])).drop
            ((arg.flatMap quoteChar).length + 1 + 1) =
          ((args.flatMap fun arg => 32 :: quote arg) ++ [10]).drop 1 := by
        rw [Nat.add_assoc, ← List.drop_drop, List.drop_left]
        rfl
      rw [hdrop, tokens_quote rfl, unescape_quoteChar, Option.bind_some]
      dsimp only
      rw [hrest, ih (Nat.le_of_succ_le_succ hlen) hzero, takeWhile_ne_zero harg]
      rfl

/-- The arguments of a whole line. -/
theorem tokens_directiveLine {directive : List UInt8} (hdirective : Written directive directive)
    {args : List (List UInt8)} (hlen : args.length ≤ 254) (hzero : ∀ arg ∈ args, 0 ∉ arg) :
    tokens 255 (directiveLine directive args ++ [10]) = some (directive :: args) := by
  have hends : Ends ((args.flatMap fun arg => 32 :: quote arg) ++ [10]) := by
    cases args with
    | nil => exact fun c hc => Option.some.inj hc ▸ rfl
    | cons arg args => exact fun c hc => Option.some.inj hc ▸ rfl
  have hblank : Blank [] := fun _ h => absurd h List.not_mem_nil
  have htokens := tokens_written 254 hblank hdirective hends
  rw [List.nil_append, ← List.append_assoc] at htokens
  rw [directiveLine, htokens, tokens_quotes hlen hzero]
  rfl

/-! ## Numbers

What is printed with `%d` is what `atoi` reads. -/

/-- Digits without a sign. -/
theorem numberOf_decimal (n : ℕ) : numberOf 10 (Numeral.decimal n) = n := by
  induction n using Nat.strongRecOn with
  | _ n ih =>
    have hdigit : digitValue (UInt8.ofNat (48 + n % 10)) = some (n % 10) := by
      have hmem : UInt8.ofNat (48 + n % 10) ∈ Numeral.decimal n := by
        rw [Numeral.decimal_eq]
        exact List.mem_append_right _ (List.mem_singleton.mpr rfl)
      rw [digitValue_digit (Numeral.isDigit_of_mem_decimal hmem),
        Numeral.toNat_digit (Nat.mod_lt n (by decide)), Nat.add_sub_cancel_left]
    rw [Numeral.decimal_eq, numberOf, List.foldl_append, List.foldl_cons, List.foldl_nil, hdigit,
      Option.getD_some]
    split
    · rw [List.foldl_nil]
      omega
    · have hrest := ih (n / 10) (by omega)
      rw [numberOf] at hrest
      rw [hrest]
      omega

/-- A minus in front of digits. -/
theorem scan_minus {digits : List UInt8} (hne : digits ≠ [])
    (hdigits : ∀ c ∈ digits, isDigitOf 10 c = true) :
    scan 10 (45 :: digits) = ⟨true, numberOf 10 digits, 1 + digits.length⟩ := by
  have hblanks : (45 :: digits).takeWhile isspace = [] := List.takeWhile_cons_of_neg (by decide)
  have hhex : hexLength 10 digits = 0 := by
    unfold hexLength
    split
    · exact if_neg fun h => absurd h.1 (by decide)
    · rfl
  simp only [scan, hblanks, List.length_nil, List.drop_zero, signOf, List.drop_succ_cons, hhex,
    List.takeWhile_eq_self_iff.mpr hdigits, if_neg hne, Nat.zero_add, Nat.add_zero]

/-- The text of a number of type `int` is read as it. -/
theorem atoi_ofInt {n : ℤ} (h : InInt n) : atoi (Numeral.ofInt n).text = n := by
  obtain ⟨hlow, hhigh⟩ := h
  have htext : (Numeral.ofInt n).text =
      (if n < 0 then [45] else []) ++ Numeral.decimal n.natAbs := by
    simp [Numeral.text, Numeral.digits, Numeral.fracText, Numeral.ofInt]
  have hdigits : ∀ c ∈ Numeral.decimal n.natAbs, IsDigit c := fun _ =>
    Numeral.isDigit_of_mem_decimal
  rw [htext]
  split_ifs with hneg
  · have hof : ∀ c ∈ Numeral.decimal n.natAbs, isDigitOf 10 c = true := fun c hc =>
      (isDigitOf_iff (Nat.le_refl 10)).mpr ⟨UInt8.le_iff_toNat_le.mp (hdigits c hc).1,
        Nat.lt_succ_of_le (UInt8.le_iff_toNat_le.mp (hdigits c hc).2)⟩
    have hmin : min n.natAbs (2 ^ 63) = n.natAbs := Nat.min_eq_left (by omega)
    have habs : -(n.natAbs : ℤ) = n := by omega
    rw [List.singleton_append, atoi, scan_minus (Numeral.decimal_ne_nil _) hof]
    dsimp only
    rw [if_pos rfl, numberOf_decimal, hmin, habs]
    exact Int.bmod_eq_of_le_mul_two (by omega) (by omega)
  · have habs : (n.natAbs : ℤ) = n := by omega
    have hlt : numberOf 10 (Numeral.decimal n.natAbs) < 2 ^ 31 := by
      rw [numberOf_decimal]
      omega
    rw [List.nil_append, atoi_digits hdigits hlt, numberOf_decimal, habs]

/-- So is the text of an interval. -/
theorem interval_ofInt {n : ℤ} (hpos : 0 ≤ n) (hlt : n < 2 ^ 31) :
    IntervalFits (Numeral.ofInt n).text ∧ intervalSeconds (Numeral.ofInt n).text = n := by
  have htext : (Numeral.ofInt n).text = Numeral.decimal n.natAbs := by
    simp [Numeral.text, Numeral.digits, Numeral.fracText, Numeral.ofInt, hpos]
  have hdigits : ∀ c ∈ Numeral.decimal n.natAbs, IsDigit c := fun _ =>
    Numeral.isDigit_of_mem_decimal
  have hinterval := parseInterval_items [] hdigits (by
    rw [numberOf_decimal, List.map_nil, List.sum_nil]
    omega)
  rw [numberOf_decimal, List.flatMap_nil, List.nil_append,
    parseInterval_eq_some (zero_not_mem_digits hdigits)] at hinterval
  rw [htext]
  refine ⟨hinterval.1, hinterval.2.symm.trans ?_⟩
  rw [List.map_nil, List.sum_nil]
  omega

/-! ## Settings

Each variable has one directive, and each value one spelling. A packet type is written as
a number, and the choice of channels as a word. -/

/-- The directive that sets a variable. -/
def StringVar.directive : StringVar → String
  | .logdir => "logdir"
  | .mycall => "mycall"
  | .myemail => "myemail"
  | .mysqlHost => "mysql_host"
  | .mysqlDb => "mysql_db"
  | .mysqlUser => "mysql_user"
  | .mysqlPassword => "mysql_password"
  | .soundDevice => "sounddevice"
  | .soundInFile => "soundinfile"
  | .soundOutFile => "soundoutfile"
  | .serialPort => "serialport"

def IntVar.directive : IntVar → String
  | .statsInterval => "statsinterval"
  | .expiryInterval => "expiryinterval"
  | .mysqlKeepsmall => "mysql_keepsmall"
  | .mysqlOldlimit => "mysql_oldlimit"
  | .soundChannels => "soundchannels"
  | .soundLevellog => "soundlevellog"

def FloatVar.directive : FloatVar → String
  | .mylat => "latitude"
  | .mylng => "longitude"

/-- The values that a variable can be given. -/
def IntVar.Takes (n : ℤ) : IntVar → Prop
  | .statsInterval | .expiryInterval => 0 ≤ n ∧ n < 2 ^ 31
  | .mysqlKeepsmall => n = 0 ∨ n = 1
  | .mysqlOldlimit | .soundLevellog => InInt n
  | .soundChannels => n ∈ soundChannelWords.map Prod.snd

/-- A value as it is written for a variable. -/
def IntVar.text (n : ℤ) : IntVar → List UInt8
  | .soundChannels => ((soundChannelWords.find? fun word => word.2 = n).elim [] Prod.fst)
  | _ => (Numeral.ofInt n).text

namespace Setting

def directive : Setting → String
  | .string dest _ => dest.directive
  | .int dest _ => dest.directive
  | .float dest _ => dest.directive
  | .skipType _ => "skip_type"
  | .uplink _ _ => "uplink"

def args : Setting → List (List UInt8)
  | .string _ s => [s]
  | .int dest n => [dest.text n]
  | .float _ text => [text]
  | .skipType i => [(Numeral.ofInt i).text]
  | .uplink name url => [name, ascii "json", url]

/-- The line that is written for a setting. -/
def line (s : Setting) : List UInt8 := directiveLine (ascii s.directive) s.args

/-- The number of a setting is one that it can have. -/
def Takes : Setting → Prop
  | .int dest n => dest.Takes n
  | .skipType i => i ≠ 0
  | _ => True

/-- A setting that can be read: its strings are strings, its number is one for the
variable, and its line fits in the buffer. -/
structure Readable (s : Setting) : Prop where
  /-- the strings are strings -/
  zero_not_mem : ∀ arg ∈ s.args, 0 ∉ arg
  /-- the number is one that the directive takes -/
  takes : s.Takes
  /-- with its line feed and a terminator -/
  fits : s.line.length + 2 ≤ cfglineLen

/-- The directives are found by their names. -/
theorem find_string (dest : StringVar) :
    findDirective (ascii dest.directive) = some (dest.directive, readString dest) := by
  cases dest <;> rfl

theorem find_float (dest : FloatVar) :
    findDirective (ascii dest.directive) = some (dest.directive, readFloat dest) := by
  cases dest <;> rfl

/-- What is written for a number is read as the number. -/
theorem find_int {dest : IntVar} {n : ℤ} (h : dest.Takes n) :
    ∃ read, findDirective (ascii dest.directive) = some (dest.directive, read) ∧
      read [dest.text n] = .setting (.int dest n) := by
  have hinterval : ∀ dest, 0 ≤ n ∧ n < 2 ^ 31 →
      readInterval dest [(Numeral.ofInt n).text] = .setting (.int dest n) := by
    rintro dest ⟨hpos, hlt⟩
    obtain ⟨hfits, hseconds⟩ := interval_ofInt hpos hlt
    have hbmod : n.bmod (2 ^ 32) = n := Int.bmod_eq_of_le_mul_two (by omega) (by omega)
    rw [readInterval, oneArgument, if_pos hfits, hseconds, hbmod]
  have hint : ∀ dest, InInt n →
      readInt dest [(Numeral.ofInt n).text] = .setting (.int dest n) := fun dest h => by
    rw [readInt, oneArgument, atoi_ofInt h]
  cases dest with
  | statsInterval => exact ⟨_, rfl, hinterval _ h⟩
  | expiryInterval => exact ⟨_, rfl, hinterval _ h⟩
  | mysqlKeepsmall => obtain rfl | rfl := h <;> exact ⟨_, rfl, rfl⟩
  | mysqlOldlimit => exact ⟨_, rfl, hint _ h⟩
  | soundChannels =>
    rw [IntVar.Takes, soundChannelWords] at h
    simp only [List.map_cons, List.map_nil, List.mem_cons, List.not_mem_nil, or_false] at h
    obtain rfl | rfl | rfl | rfl := h <;> exact ⟨_, rfl, rfl⟩
  | soundLevellog => exact ⟨_, rfl, hint _ h⟩

/-- The names of the directives are words without a sign that stands for something else. -/
theorem directive_word : ∀ name ∈ directives.map Prod.fst,
    Written (ascii name) (ascii name) ∧ 10 ∉ ascii name ∧ (ascii name).head? ≠ some 35 := by
  have hwords : ∀ name ∈ directives.map Prod.fst, (ascii name ≠ [] ∧
      (∀ c ∈ ascii name, isspace c = false) ∧ 0 ∉ ascii name ∧ (ascii name).head? ≠ some 34) ∧
      10 ∉ ascii name ∧ (ascii name).head? ≠ some 35 := by
    decide +kernel
  intro name hname
  obtain ⟨⟨hne, hspace, hzero, hquote⟩, hrest⟩ := hwords name hname
  exact ⟨.raw hne hspace hzero hquote, hrest⟩

/-- Every name is one of the table. -/
theorem directive_mem (s : Setting) : s.directive ∈ directives.map Prod.fst := by
  cases s with
  | string dest _ =>
    rw [directive]
    cases dest <;> decide
  | int dest _ =>
    rw [directive]
    cases dest <;> decide
  | float dest _ =>
    rw [directive]
    cases dest <;> decide
  | skipType _ =>
    rw [directive]
    decide
  | uplink _ _ =>
    rw [directive]
    decide

/-- A packet type is read as it is written. -/
theorem read_skipType {i : Fin (maxAisPacketType + 1)} (h : i ≠ 0) :
    readSkipType [(Numeral.ofInt i).text] = .setting (.skipType i) := by
  have hi := i.isLt
  have hmax : maxAisPacketType < 2 ^ 31 := by decide
  have hne : (i : ℕ) ≠ 0 := fun h0 => h (Fin.ext h0)
  have hatoi : atoi (Numeral.ofInt i).text = i := atoi_ofInt ⟨by omega, by omega⟩
  have hrange : 0 < atoi (Numeral.ofInt i).text ∧
      atoi (Numeral.ofInt i).text ≤ maxAisPacketType := by omega
  rw [readSkipType, oneArgument, dif_pos hrange]
  simp only [hatoi, Int.toNat_natCast]

/-- The directive is found, and reads the setting. -/
theorem Readable.find {s : Setting} (h : s.Readable) :
    ∃ read, findDirective (ascii s.directive) = some (s.directive, read) ∧
      read s.args = .setting s := by
  cases s with
  | string dest s => exact ⟨readString dest, find_string dest, rfl⟩
  | int dest n => exact find_int h.takes
  | float dest text => exact ⟨readFloat dest, find_float dest, rfl⟩
  | skipType i =>
    have hfind : findDirective (ascii "skip_type") = some ("skip_type", readSkipType) := rfl
    exact ⟨readSkipType, hfind, read_skipType h.takes⟩
  | uplink name url =>
    have hfind : findDirective (ascii "uplink") = some ("uplink", readUplink) := rfl
    have hjson : strcasecmpEq (ascii "json") (ascii "json") = true := by decide
    exact ⟨readUplink, hfind, readUplink_json hjson name url []⟩

/-- The arguments mean the setting. -/
theorem Readable.argsMeaning {s : Setting} (h : s.Readable) :
    argsMeaning (ascii s.directive :: s.args) = .setting s := by
  obtain ⟨read, hfind, hread⟩ := h.find
  rw [Gnuais.argsMeaning, if_neg (directive_word _ s.directive_mem).2.2, hfind]
  exact hread

/-- The arguments of a line are no more than `argv` has room for. -/
theorem length_args_le (s : Setting) : s.args.length ≤ 254 := by
  cases s <;> simp [args]

/-- Neither a terminator nor a line feed stands in the line. -/
theorem Readable.not_mem_line {s : Setting} (h : s.Readable) : 0 ∉ s.line ∧ 10 ∉ s.line := by
  obtain ⟨hword, hfeed, -⟩ := directive_word _ s.directive_mem
  have hargs : ∀ c ∈ s.args.flatMap fun arg => 32 :: quote arg, c ≠ 0 ∧ c ≠ 10 := by
    intro c hc
    obtain ⟨arg, harg, hc⟩ := List.mem_flatMap.mp hc
    rcases List.mem_cons.mp hc with rfl | hc
    · decide
    · rcases mem_quote hc with rfl | rfl | rfl | ⟨hmem, hne⟩
      · decide
      · decide
      · decide
      · exact ⟨fun h0 => h.zero_not_mem arg harg (h0 ▸ hmem), hne⟩
  constructor
  · exact fun hmem => (List.mem_append.mp hmem).elim hword.zero_not_mem fun hc => (hargs 0 hc).1 rfl
  · exact fun hmem => (List.mem_append.mp hmem).elim hfeed fun hc => (hargs 10 hc).2 rfl

/-- The line means the setting. -/
theorem Readable.lineMeaning {s : Setting} (h : s.Readable) :
    lineMeaning (s.line ++ [10]) = .setting s := by
  have hzero : 0 ∉ s.line ++ [10] := fun hmem =>
    (List.mem_append.mp hmem).elim h.not_mem_line.1 fun hc => absurd (List.mem_singleton.mp hc) (by decide)
  rw [Gnuais.lineMeaning, takeWhile_ne_zero hzero, line,
    tokens_directiveLine (directive_word _ s.directive_mem).1 s.length_args_le h.zero_not_mem]
  exact h.argsMeaning

end Setting

/-! ## Files

Each line is read by itself, so a file is read as its lines are. -/

/-- A file without lines that are wrong is read to its end. -/
theorem Reading.eq_of_passes {atof : List UInt8 → F} {cfg : CfgVars F} {n : ℕ}
    {lines : List (List UInt8)} {r : Option (CfgRead F)} (h : Reading atof cfg n lines r)
    (hpasses : ∀ line ∈ lines, Passes line) :
    r = some ⟨0, applyAll atof (lines.filterMap settingOf) cfg, n + lines.length⟩ := by
  cases h with
  | all _ => rfl
  | wrong _ hwrong =>
    exact absurd hwrong (hpasses _ (List.mem_append_right _ List.mem_cons_self)).1
  | undefined _ hundefined =>
    exact absurd hundefined (hpasses _ (List.mem_append_right _ List.mem_cons_self)).2

/-- The file that is written for some settings. -/
def settingsFile (settings : List Setting) : List UInt8 := settings.flatMap fun s => s.line ++ [10]

section Written

variable {settings : List Setting} (h : ∀ s ∈ settings, s.Readable)

include h

/-- The lines of the file are the lines that were written. -/
theorem pieces_settingsFile :
    pieces 10 cfglineLen (settingsFile settings) = settings.map fun s => s.line ++ [10] := by
  have hlines : ∀ line ∈ settings.map Setting.line, 10 ∉ line ∧ line.length + 2 ≤ cfglineLen :=
    List.forall_mem_map.mpr fun s hs => ⟨(h s hs).not_mem_line.2, (h s hs).fits⟩
  have heq := pieces_lines 10 hlines
  rwa [List.flatMap_map, List.map_map] at heq

/-- No line of it is wrong. -/
theorem passes_settingsFile : ∀ line ∈ pieces 10 cfglineLen (settingsFile settings), Passes line := by
  rw [pieces_settingsFile h]
  refine List.forall_mem_map.mpr fun s hs => ?_
  rw [Passes, (h s hs).lineMeaning]
  exact ⟨Meaning.noConfusion, Meaning.noConfusion⟩

/-- Each gives its setting. -/
theorem filterMap_settingsFile :
    (pieces 10 cfglineLen (settingsFile settings)).filterMap settingOf = settings := by
  have hsome : ∀ s ∈ settings, (settingOf ∘ fun s : Setting => s.line ++ [10]) s = some s :=
    fun s hs => by rw [Function.comp_apply, settingOf, (h s hs).lineMeaning]
  rw [pieces_settingsFile h, List.filterMap_map, List.filterMap_congr hsome, List.filterMap_some]

end Written

/-- A file that is written for some settings is read as these settings, in their order,
whatever their values. So every value that a directive takes has a spelling, as long as
its line fits. -/
theorem readCfgfile_lines (atof : List UInt8 → F) (behind : ℕ → List UInt8)
    {settings : List Setting} (h : ∀ s ∈ settings, s.Readable) (cfg : CfgVars F) :
    readCfgfile (cfgCmds atof) behind (settingsFile settings) cfg =
      some ⟨0, applyAll atof settings cfg, settings.length⟩ := by
  have hreading : Reading atof cfg 0 _ (readCfgfile (cfgCmds atof) behind (settingsFile settings) cfg) :=
    readCfgfileLoop_reading behind (Nat.le_refl _) 0 cfg
  rw [hreading.eq_of_passes (passes_settingsFile h), filterMap_settingsFile h, pieces_settingsFile h,
    List.length_map, Nat.zero_add]

/-- A callsign with a quote and a line feed in it, an interval and an uplink. -/
def someSettings : List Setting :=
  [.string .mycall [79, 34, 10, 72], .int .statsInterval 3600, .uplink (ascii "sea") (ascii "http")]

theorem readable_someSettings : ∀ s ∈ someSettings, s.Readable := by
  refine List.forall_mem_cons.mpr ⟨?_, List.forall_mem_cons.mpr ⟨?_, List.forall_mem_singleton.mpr ?_⟩⟩
  · exact ⟨by decide, trivial, by decide +kernel⟩
  · exact ⟨by decide, ⟨by decide, by decide⟩, by decide +kernel⟩
  · exact ⟨by decide, trivial, by decide +kernel⟩

theorem readCfgfile_lines_some :
    readCfgfile (cfgCmds fun _ => ()) (fun _ => []) (settingsFile someSettings)
        ⟨fun _ => none, fun _ => 0, fun _ => (), fun _ => 0, []⟩ =
      some ⟨0, applyAll (fun _ => ()) someSettings
        ⟨fun _ => none, fun _ => 0, fun _ => (), fun _ => 0, []⟩, 3⟩ :=
  readCfgfile_lines _ _ readable_someSettings _

end Gnuais
