import Gnuais.Print
import Gnuais.Lib.Buffer

/-!
# Log lines

`hlog` and `accesslog` format a message into one array and the line around it into a
second one of the same size, and write as many characters as `snprintf` returned for
the line. That is the length of the whole line, so only lines that fit are written as
they are (`log_writes_iff`).

What the clock and the system say goes in as `LogEnv`, what the arrays held before as
vectors of their own, and a message is the text that its format and its arguments make.
-/

namespace Gnuais

open Buffer Numeral

/-! ## Conversions of integers

The formats of the log use four ways to print a number. They differ in what fills the
width, and in whether the sign counts as a digit. -/

/-- A number with a minimal width, filled with blanks: `%4d`. -/
def printWidth (width : ℕ) (i : ℤ) : List UInt8 :=
  List.replicate (width - (printInt i).text.length) 32 ++ (printInt i).text

/-- A number with its sign in front of zeros. -/
def printFilled (zeros : ℕ) (i : ℤ) : List UInt8 :=
  (if (printInt i).negative then [45] else []) ++ List.replicate zeros 48 ++ (printInt i).digits

/-- A number with a minimal width, filled with zeros: `%02d`. -/
def printZeros (width : ℕ) (i : ℤ) : List UInt8 :=
  printFilled (width - (printInt i).text.length) i

/-- A number with a minimal number of digits: `%2.2d`. -/
def printDigits (prec : ℕ) (i : ℤ) : List UInt8 :=
  printFilled (prec - (printInt i).digits.length) i

/-! ## `hlog`

`snprintf` returns the length of what it would have written, had there been room. `hlog`
takes it for the length of what is in the array. -/

/-- `LOG_LEN` -/
def logLen : ℕ := 8192

/-- A string of the program. -/
structure CStr where
  /-- the characters in front of the terminator -/
  chars : List UInt8
  /-- no terminator stands among them -/
  zero_not_mem : 0 ∉ chars
  deriving DecidableEq, Repr

/-- The variables of the log. `NULL` is `none`. -/
structure LogState where
  /-- `log_dest`, one of the three destinations -/
  logDest : ℤ
  /-- `log_level`; messages of a higher number are dropped -/
  logLevel : ℤ
  /-- `log_name`, which `hlog` prints in front -/
  logName : Option CStr
  /-- `log_file`, negative if the log is not open -/
  logFile : ℤ

/-- `struct tm` -/
structure Tm where
  /-- years since 1900, as the library counts them -/
  tmYear : ℤ
  /-- months since January -/
  tmMon : ℤ
  /-- the day and the time are printed as they are -/
  tmMday : ℤ
  tmHour : ℤ
  tmMin : ℤ
  tmSec : ℤ

/-- What `gettimeofday` and `gmtime_r`, `getpid` and `pthread_self` say. -/
structure LogEnv where
  /-- the time, in UTC -/
  lt : Tm
  /-- the microseconds of it -/
  usec : ℤ
  /-- the number of the process -/
  pid : ℤ
  /-- the number of the thread; the formats print it signed in one place and unsigned in
  the other -/
  thread : ℕ

/-- `log_levelnames` -/
def logLevelnames : List String :=
  ["EMERG", "ALERT", "CRIT", "ERR", "WARNING", "NOTICE", "INFO", "DEBUG"]

/-- `log_levelnames[priority]` -/
def levelname (priority : ℤ) : List UInt8 := ascii (logLevelnames[priority.toNat]?.getD "")

/-- What `hlog` or `accesslog` does with a message. What `stderr` and `syslog` do with a
line is up to them, and no length is passed to them. -/
inductive LogAction where
  /-- the message is dropped -/
  | nothing
  /-- a line for `stderr` -/
  | stderr (line : List UInt8)
  /-- a message for `syslog`, which makes its own line -/
  | syslog (priority : ℤ) (line : List UInt8)
  /-- `write(log_file, wb, len)`; the array may be shorter than `len` -/
  | write (wb : Vector UInt8 logLen) (len : ℤ)

/-- The priority within its bounds. -/
def clampPriority (priority : ℤ) : ℤ :=
  if 7 < priority then 7 else if priority < 0 then 0 else priority

/-- What stands in front of the message, with the number of the thread as it is
printed. -/
def hlogPrefix (logName : Option CStr) (env : LogEnv) (thread : List UInt8) (priority : ℤ) :
    List UInt8 :=
  printWidth 4 (env.lt.tmYear + 1900) ++ 47 :: printZeros 2 (env.lt.tmMon + 1) ++
    47 :: printZeros 2 env.lt.tmMday ++ 32 :: printZeros 2 env.lt.tmHour ++
    58 :: printZeros 2 env.lt.tmMin ++ 58 :: printZeros 2 env.lt.tmSec ++
    46 :: printZeros 6 env.usec ++ 32 :: (logName.map CStr.chars).getD (ascii "gnuais") ++
    91 :: (printInt env.pid).text ++ 58 :: thread ++ 93 :: 32 :: levelname priority ++ [58, 32]

/-- `%ld` of the thread -/
def threadLong (env : LogEnv) : List UInt8 := (printLong env.thread).text

/-- `%lu` of the thread -/
def threadUlong (env : LogEnv) : List UInt8 := decimal (env.thread % 2 ^ 64)

/-- The number that `snprintf` returns for a text: an error beyond an `int`. -/
def intLength (n : ℕ) : ℤ := if n < 2 ^ 31 then n else -1

/-- `hlog`: the number it returns, and what it does. The last character of the array is a
terminator in any case. -/
def hlog (g : LogState) (env : LogEnv) (s wb : Vector UInt8 logLen) (priority : ℤ)
    (message : List UInt8) : Option (ℤ × LogAction) := do
  let priority := clampPriority priority
  if g.logLevel < priority then return (0, .nothing)
  else do
    let s ← cString (snprintf s message).1
    -- `L_STDERR`, `L_FILE` and `L_SYSLOG`
    if g.logDest = 1 then
      return (1, .stderr (hlogPrefix g.logName env (threadUlong env) priority ++ s ++ [10]))
    else if g.logDest = 3 ∧ 0 ≤ g.logFile then
      let out := snprintf wb (hlogPrefix g.logName env (threadLong env) priority ++ s ++ [10])
      return (1, .write (out.1.setIfInBounds (logLen - 1) 0) (intLength out.2))
    else if g.logDest = 2 then
      return (1, .syslog priority (levelname priority ++ 58 :: 32 :: s))
    else return (1, .nothing)

/-! ## `accesslog`

The access log has its own prefix and its own file, but the two `snprintf`s are the same. -/

/-- The time, in brackets. -/
def accesslogPrefix (lt : Tm) : List UInt8 :=
  91 :: printDigits 4 (lt.tmYear + 1900) ++ 47 :: printDigits 2 (lt.tmMon + 1) ++
    47 :: printDigits 2 lt.tmMday ++ 32 :: printDigits 2 lt.tmHour ++ 58 :: printDigits 2 lt.tmMin ++
    58 :: printDigits 2 lt.tmSec ++ [93, 32]

/-- `accesslog`: the number it returns, `accesslog_file` behind it, and what it does.
That the file is not open is told once. -/
def accesslog (accesslogFile : ℤ) (lt : Tm) (s wb : Vector UInt8 logLen) (message : List UInt8) :
    Option (ℤ × ℤ × LogAction) := do
  let s ← cString ((snprintf s message).1.setIfInBounds (logLen - 1) 0)
  let out := snprintf wb (accesslogPrefix lt ++ s ++ [10])
  let wb := out.1.setIfInBounds (logLen - 1) 0
  if 0 ≤ accesslogFile then return (1, accesslogFile, .write wb (intLength out.2))
  else return (1, -666, .nothing)

/-! ## The line that is written

What a `write` puts into a file is said for any array and any length: it reads behind the
array if the length asks for more, and `writeOut` is none then. -/

/-- A `write` of an array with the length of an `int`, which is a large number if it is
negative. -/
def writeOut (wb : Vector UInt8 logLen) (len : ℤ) : Option (List UInt8) :=
  if len < 0 then none else readOut wb len.toNat

/-- A message between its prefix and a line feed. -/
def logLine (start message : List UInt8) : List UInt8 := start ++ message.takeWhile (· ≠ 0) ++ [10]

/-- The length is at most that of the string in the array, and what is written is the
line, cut off at the size of the array. `write` is given as many bytes as `snprintf`
returned, whatever there is in the array. -/
def WritesLine (line : List UInt8) (wb : Vector UInt8 logLen) (len : ℤ) : Prop :=
  ∃ s, cString wb = some s ∧ len ≤ s.length ∧ writeOut wb len = some (line.take (logLen - 1))

/-! ## No terminator stands in a prefix

A zero in the prefix would end the line early. One lemma a conversion. -/

/-- The digits of a number. -/
theorem zero_not_mem_digits_text (n : Numeral) : 0 ∉ n.digits := by
  obtain ⟨d, ds, hdigits, hd, hds⟩ := n.digits_eq_cons
  rw [hdigits]
  intro hmem
  rcases List.mem_cons.mp hmem with h0 | hmem
  · exact absurd (h0 ▸ hd) (by decide)
  · exact (hds 0 hmem).elim (by decide) (by decide)

/-- A number with its sign. -/
theorem zero_not_mem_text (n : Numeral) : 0 ∉ n.text := by
  intro hmem
  rcases List.mem_append.mp hmem with hmem | hmem
  · split at hmem
    · exact absurd (List.mem_singleton.mp hmem) (by decide)
    · cases hmem
  · exact zero_not_mem_digits_text n hmem

theorem zero_not_mem_printWidth (width : ℕ) (i : ℤ) : 0 ∉ printWidth width i := fun hmem =>
  (List.mem_append.mp hmem).elim
    (fun hmem => absurd (List.eq_of_mem_replicate hmem) (by decide)) (zero_not_mem_text _)

theorem zero_not_mem_printFilled (zeros : ℕ) (i : ℤ) : 0 ∉ printFilled zeros i := by
  intro hmem
  rcases List.mem_append.mp hmem with hmem | hmem
  · rcases List.mem_append.mp hmem with hmem | hmem
    · split at hmem
      · exact absurd (List.mem_singleton.mp hmem) (by decide)
      · cases hmem
    · exact absurd (List.eq_of_mem_replicate hmem) (by decide)
  · exact zero_not_mem_digits_text _ hmem

theorem zero_not_mem_levelname (priority : ℤ) : 0 ∉ levelname priority := by
  have hall : ∀ name ∈ logLevelnames, 0 ∉ ascii name := by decide
  rw [levelname]
  cases hname : logLevelnames[priority.toNat]? with
  | none => exact List.not_mem_nil
  | some name => exact hall name (List.mem_of_getElem? hname)

/-- The name of the program is a string, so it has none either. -/
theorem zero_not_mem_hlogPrefix (logName : Option CStr) (env : LogEnv) (priority : ℤ) :
    0 ∉ hlogPrefix logName env (threadLong env) priority := by
  have hname : 0 ∉ (logName.map CStr.chars).getD (ascii "gnuais") := by
    cases logName with
    | none =>
      rw [Option.map_none, Option.getD_none]
      decide
    | some name => exact name.zero_not_mem
  simp only [hlogPrefix, threadLong, List.mem_append, List.mem_cons, not_or, printZeros,
    zero_not_mem_printWidth, zero_not_mem_printFilled, zero_not_mem_text, hname,
    zero_not_mem_levelname, List.not_mem_nil]
  decide

theorem zero_not_mem_accesslogPrefix (lt : Tm) : 0 ∉ accesslogPrefix lt := by
  simp only [accesslogPrefix, List.mem_append, List.mem_cons, not_or, printDigits,
    zero_not_mem_printFilled, List.not_mem_nil]
  decide

/-! ## Lines that fit

The message is formatted first, into an array of the same size as the line. So a message
that is cut off there already is too long for the line, and the two conditions are one. -/

/-- What the second `snprintf` formats: the message was cut off by the first one. -/
def lineText (start message : List UInt8) : List UInt8 :=
  start ++ (message.take (logLen - 1)).takeWhile (· ≠ 0) ++ [10]

/-- The line that is formatted fits if the whole line does: cutting the message off does
not make it fit. -/
theorem length_lineText_lt_iff (start message : List UInt8) :
    (lineText start message).length < logLen ↔ (logLine start message).length < logLen := by
  rw [lineText, logLine, ← List.take_takeWhile]
  simp only [List.length_append, List.length_take, List.length_singleton, logLen]
  omega

/-- A line that fits has the whole message in it. -/
theorem lineText_eq {start message : List UInt8} (h : (logLine start message).length < logLen) :
    lineText start message = logLine start message := by
  rw [logLine, List.length_append, List.length_append] at h
  rw [lineText, logLine, ← List.take_takeWhile, List.take_of_length_le (by omega)]

/-- There is no terminator in it. -/
theorem zero_not_mem_lineText {start : List UInt8} (hstart : 0 ∉ start) (message : List UInt8) :
    0 ∉ lineText start message := by
  intro hmem
  rcases List.mem_append.mp hmem with hmem | hmem
  · rcases List.mem_append.mp hmem with hmem | hmem
    · exact hstart hmem
    · exact absurd (List.mem_takeWhile_imp hmem) (by decide)
  · exact absurd (List.mem_singleton.mp hmem) (by decide)

/-- The message that the second `snprintf` gets. -/
theorem cString_message (s : Vector UInt8 logLen) (message : List UInt8) :
    cString (snprintf s message).1 = some ((message.take (logLen - 1)).takeWhile (· ≠ 0)) :=
  cString_holdsAt_cut (holdsAt_snprintf s message (by decide))

/-- As many characters as the first array has room for. -/
theorem length_take_logLen (text : List UInt8) : (text.take (logLen - 1)).length < logLen := by
  rw [List.length_take]
  exact Nat.lt_of_le_of_lt (Nat.min_le_left _ _) (by decide)

theorem cString_message_last (s : Vector UInt8 logLen) (message : List UInt8) :
    cString ((snprintf s message).1.setIfInBounds (logLen - 1) 0) =
      some ((message.take (logLen - 1)).takeWhile (· ≠ 0)) :=
  cString_holdsAt_cut ((holdsAt_snprintf s message (by decide)).set_last (length_take_logLen _))

/-- The number that `snprintf` returned is the right one for `write` if and only if the
line fits. -/
theorem writesLine_iff {start : List UInt8} (hstart : 0 ∉ start) (message : List UInt8)
    (wb : Vector UInt8 logLen) :
    WritesLine (logLine start message)
        ((snprintf wb (lineText start message)).1.setIfInBounds (logLen - 1) 0)
        (intLength (lineText start message).length) ↔
      (logLine start message).length < logLen := by
  have hholds := (holdsAt_snprintf wb (lineText start message) (by decide)).set_last
    (length_take_logLen _)
  have hstring := cString_holdsAt hholds fun hmem =>
    zero_not_mem_lineText hstart message (List.mem_of_mem_take hmem)
  rw [← length_lineText_lt_iff]
  constructor
  · rintro ⟨s, hs, hle, hwrite⟩
    rw [hstring] at hs
    have hshort := length_take_logLen (lineText start message)
    rw [Option.some.inj hs] at hshort
    rw [intLength] at hle hwrite
    split at hle
    · omega
    · rename_i hlong
      rw [if_neg hlong, writeOut, if_pos (by decide)] at hwrite
      cases hwrite
  · intro hfits
    have hline := lineText_eq ((length_lineText_lt_iff start message).mp hfits)
    rw [← hline]
    have hall : (lineText start message).take (logLen - 1) = lineText start message :=
      List.take_of_length_le (Nat.le_sub_one_of_lt hfits)
    have hlen : intLength (lineText start message).length = (lineText start message).length :=
      if_pos (Nat.lt_trans hfits (by decide))
    refine ⟨_, hstring, ?_, ?_⟩
    · rw [hall]
      exact Int.le_of_eq hlen
    · rw [hlen, writeOut, if_neg (by omega), Int.toNat_natCast,
        hholds.readOut_eq (by rw [hall, List.length_append]; omega) hfits.le, hall, List.take_left]

/-- The branch of `hlog` that writes to a file. -/
theorem hlog_write_iff {g : LogState} {env : LogEnv} {s wb out : Vector UInt8 logLen}
    {priority ret len : ℤ} {message : List UInt8} :
    hlog g env s wb priority message = some (ret, .write out len) ↔
      (clampPriority priority ≤ g.logLevel ∧ g.logDest = 3 ∧ 0 ≤ g.logFile) ∧
      (1, LogAction.write ((snprintf wb (lineText (hlogPrefix g.logName env (threadLong env)
          (clampPriority priority)) message)).1.setIfInBounds (logLen - 1) 0)
        (intLength (lineText (hlogPrefix g.logName env (threadLong env)
          (clampPriority priority)) message).length)) = (ret, LogAction.write out len) := by
  rw [hlog]
  simp only [cString_message, Option.bind_eq_bind, Option.bind_some]
  by_cases hlevel : g.logLevel < clampPriority priority
  · rw [if_pos hlevel]
    exact iff_of_false (fun h => nomatch h) fun h => absurd h.1.1 (Int.not_le.mpr hlevel)
  rw [if_neg hlevel, and_iff_right (Int.not_lt.mp hlevel)]
  by_cases hstderr : g.logDest = 1
  · rw [if_pos hstderr]
    refine iff_of_false (fun h => nomatch h) fun h => ?_
    rw [hstderr] at h
    exact absurd h.1.1 (by decide)
  rw [if_neg hstderr]
  by_cases hfile : g.logDest = 3 ∧ 0 ≤ g.logFile
  · rw [if_pos hfile, and_iff_right hfile, ← lineText, Option.pure_def, Option.some_inj,
      snprintf_snd]
  · rw [if_neg hfile]
    refine iff_of_false (fun h => ?_) fun h => hfile h.1
    split at h <;> cases h

/-- `hlog` and `accesslog` write a line to their files as it is, up to the size of the
array, if and only if the whole line fits. A longer line is cut off in the array, but not
in the length that is given to `write`. -/
theorem log_writes_iff (g : LogState) (env : LogEnv) (s wb : Vector UInt8 logLen) (priority : ℤ)
    (message : List UInt8) (accesslogFile : ℤ) (lt : Tm) (s' wb' : Vector UInt8 logLen)
    (access : List UInt8) :
    ((∀ ret out len, hlog g env s wb priority message = some (ret, .write out len) →
        WritesLine (logLine (hlogPrefix g.logName env (threadLong env) (clampPriority priority))
          message) out len) ↔
      (clampPriority priority ≤ g.logLevel ∧ g.logDest = 3 ∧ 0 ≤ g.logFile →
        (logLine (hlogPrefix g.logName env (threadLong env) (clampPriority priority))
          message).length < logLen)) ∧
    ((∀ ret file out len,
        accesslog accesslogFile lt s' wb' access = some (ret, file, .write out len) →
        WritesLine (logLine (accesslogPrefix lt) access) out len) ↔
      (0 ≤ accesslogFile → (logLine (accesslogPrefix lt) access).length < logLen)) := by
  have hzero := zero_not_mem_hlogPrefix g.logName env (clampPriority priority)
  refine ⟨⟨fun hall hopen => ?_, fun hfits ret out len hrun => ?_⟩, ?_⟩
  · exact (writesLine_iff hzero message wb).mp (hall _ _ _ (hlog_write_iff.mpr ⟨hopen, rfl⟩))
  · obtain ⟨hopen, heq⟩ := hlog_write_iff.mp hrun
    obtain ⟨rfl, rfl⟩ := LogAction.write.inj (Prod.mk.inj heq).2
    exact (writesLine_iff hzero message wb).mpr (hfits hopen)
  · have hline := writesLine_iff (zero_not_mem_accesslogPrefix lt) access wb'
    rw [accesslog, cString_message_last]
    simp only [Option.bind_eq_bind, Option.bind_some]
    by_cases hopen : 0 ≤ accesslogFile
    · rw [if_pos hopen, ← lineText, Option.pure_def, snprintf_snd, ← hline]
      refine ⟨fun hall _ => hall _ _ _ _ rfl, fun hfits ret file out len hrun => ?_⟩
      have heq := (Prod.mk.inj (Prod.mk.inj (Option.some.inj hrun)).2).2
      obtain ⟨rfl, rfl⟩ := LogAction.write.inj heq
      exact hfits hopen
    · rw [if_neg hopen]
      exact iff_of_true (fun ret file out len hrun => nomatch hrun) fun h => absurd h hopen

/-- A message of the size of the array does not fit behind its prefix. -/
theorem hlog_long_message :
    ∃ out len, hlog ⟨3, 7, none, 5⟩ ⟨⟨70, 0, 1, 0, 0, 0⟩, 0, 1, 1⟩ (Vector.replicate logLen 0)
        (Vector.replicate logLen 0) 7 (List.replicate logLen 97) = some (1, .write out len) ∧
      ¬ WritesLine (logLine (hlogPrefix none ⟨⟨70, 0, 1, 0, 0, 0⟩, 0, 1, 1⟩
        (threadLong ⟨⟨70, 0, 1, 0, 0, 0⟩, 0, 1, 1⟩) 7) (List.replicate logLen 97)) out len := by
  refine ⟨_, _, hlog_write_iff.mpr ⟨by decide, rfl⟩, fun hwrites => ?_⟩
  have hfits := (writesLine_iff (zero_not_mem_hlogPrefix none _ 7) _ _).mp hwrites
  rw [logLine, List.takeWhile_replicate, if_pos (by decide), List.length_append,
    List.length_append, List.length_replicate] at hfits
  omega

end Gnuais
