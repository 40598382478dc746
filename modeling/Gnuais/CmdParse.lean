import Gnuais.Interval
import Gnuais.ParseArgs

/-!
# Running a directive

Which lines `cmdparse` handles as it should (`cmdparse_sound_iff`): an error leaves the
variables alone, a handler that completes has read nothing behind its arguments, and
each uplink has a name and an address. Two handlers do not: `do_uplink` checks for
three arguments and uses a fourth one, and `do_interval` overflows for intervals that
are too long.
-/

namespace Gnuais

open CString

variable {F : Type}

/-- What is asked of `cmdparse`. -/
structure Handled.Sound (cfg : CfgVars F) (r : Handled F) : Prop where
  /-- an error changes nothing, and a handler that completes reads its own arguments only -/
  outcome : r.ret < 0 ∧ r.cfg = cfg ∨ 0 ≤ r.ret ∧ ∀ i ∈ r.reads, i < r.argc
  /-- an uplink can be used -/
  uplinks : ∀ u ∈ r.cfg.newUplinkConfig,
    u ∈ cfg.newUplinkConfig ∨ u.name ≠ none ∧ u.url ≠ none

/-- A handler does what is asked. -/
def Runs (function : Handler F) (args : ParsedArgs) (cfg : CfgVars F) : Prop :=
  ∃ ret cfg' reads, (function args cfg).run [] = some ((ret, cfg'), reads) ∧
    Handled.Sound cfg ⟨ret, cfg', args.argc, reads⟩

/-! ## The handlers

All but two do what is asked for any arguments. For `do_interval` and `do_uplink` there is
a condition, and it is exact. -/

section Handlers

variable {args : ParsedArgs} {strs : List (List UInt8)} (h : args.Holds strs) (cfg : CfgVars F)

/-- An error that leaves the variables alone. -/
theorem runs_error {function : Handler F} {ret : ℤ} {reads : List ℕ} (hret : ret < 0)
    (hrun : (function args cfg).run [] = some ((ret, cfg), reads)) : Runs function args cfg :=
  ⟨ret, cfg, reads, hrun, .inl ⟨hret, rfl⟩, fun _ hu => .inl hu⟩

/-- An argument is a string. -/
theorem zero_not_mem_arg {i : ℕ} {s : List UInt8} (hs : args.arg i = some (some s)) : 0 ∉ s := by
  rw [ParsedArgs.arg] at hs
  split at hs
  · cases hs
  · cases hs
  · obtain ⟨s', hstring, heq⟩ := Option.map_eq_some_iff.mp hs
    rw [← Option.some.inj heq]
    exact (cStringList_some hstring).1

include h

/-- The second argument, when there are as many. -/
theorem exists_second (hargc : ¬ args.argc < 2) :
    ∃ s, strs[1]? = some s ∧ args.arg 1 = some (some s) := by
  have hlen : 1 < strs.length := by
    rw [← h.1]
    omega
  exact ⟨strs[1], List.getElem?_eq_getElem hlen, h.2.1 1 hlen⟩

/-- A handler that turns its second argument into a value. -/
theorem runs_value {function : Handler F} {f : List UInt8 → Handling (ℤ × CfgVars F)}
    {k : List UInt8 → ℤ × CfgVars F}
    (hform : function args cfg = if args.argc < 2 then return (-1, cfg) else argString args 1 >>= f)
    (hf : ∀ s, f s = return k s) (hk : ∀ s, (k s).1 < 0 ∧ (k s).2 = cfg ∨ 0 ≤ (k s).1)
    (huplinks : ∀ s, (k s).2.newUplinkConfig = cfg.newUplinkConfig) :
    Runs function args cfg := by
  by_cases hargc : args.argc < 2
  · have hrun : (function args cfg).run [] = some ((-1, cfg), []) := by
      rw [hform, if_pos hargc]
      rfl
    exact runs_error cfg (by decide) hrun
  · obtain ⟨s, -, hs⟩ := exists_second h hargc
    have hrun : (function args cfg).run [] = some (k s, [1]) := by
      rw [hform, if_neg hargc, StateT.run_bind, argString_run [] hs, Option.bind_eq_bind,
        Option.bind_some, hf]
      rfl
    refine ⟨(k s).1, (k s).2, [1], hrun, ?_, fun u hu => .inl (huplinks s ▸ hu)⟩
    refine (hk s).imp_right fun hret => ⟨hret, fun i hi => ?_⟩
    rw [List.mem_singleton.mp hi]
    exact Nat.lt_of_not_le fun hle => hargc (Nat.lt_succ_of_le hle)

/-- The handlers that do what is asked of any arguments. -/
theorem runs_doString (dest : StringVar) : Runs (doString dest) args cfg := by
  have hform : doString dest args cfg = if args.argc < 2 then return (-1, cfg)
      else argString args 1 >>= fun s => return (0, cfg.setString dest (some s)) := by
    rw [doString, hstrdup, bind_map_left]
  exact runs_value h cfg hform (fun _ => rfl) (fun _ => .inr (Int.le_refl 0)) fun _ => rfl

theorem runs_doInt (dest : IntVar) : Runs (doInt dest) args cfg :=
  runs_value h cfg rfl (fun _ => rfl) (fun _ => .inr (Int.le_refl 0)) fun _ => rfl

theorem runs_doFloat (atof : List UInt8 → F) (dest : FloatVar) :
    Runs (doFloat atof dest) args cfg :=
  runs_value h cfg rfl (fun _ => rfl) (fun _ => .inr (Int.le_refl 0)) fun _ => rfl

theorem runs_doToggle (dest : IntVar) : Runs (doToggle dest) args cfg := by
  refine runs_value (k := fun s => if toggleWords.any (strcasecmpEq s) then
    (1, cfg.setInt dest 1) else (0, cfg.setInt dest 0)) h cfg rfl ?_ ?_ ?_ <;> intro s <;> split
  · rfl
  · rfl
  · exact .inr (Int.zero_le_ofNat 1)
  · exact .inr (Int.le_refl 0)
  · rfl
  · rfl

theorem runs_doSkipType : Runs (doSkipType (F := F)) args cfg := by
  refine runs_value (k := fun s => if h : 0 < atoi s ∧ atoi s ≤ maxAisPacketType then
    (0, { cfg with skipType := Function.update cfg.skipType ⟨(atoi s).toNat, by omega⟩ 1 })
    else (-1, cfg)) h cfg rfl ?_ ?_ ?_ <;> intro s
  · dsimp only
    split <;> rfl
  · split
    · exact .inr (Int.le_refl 0)
    · exact .inl ⟨Int.negSucc_lt_zero 0, rfl⟩
  · split <;> rfl

theorem runs_doSoundCh (dest : IntVar) : Runs (doSoundCh dest) args cfg := by
  refine runs_value (k := fun s => (soundChannelWords.find? fun word => strcasecmpEq s word.1).elim
    (-1, cfg) fun word => (0, cfg.setInt dest word.2)) h cfg rfl ?_ ?_ ?_ <;> intro s <;>
      cases soundChannelWords.find? fun word => strcasecmpEq s word.1
  · rfl
  · rfl
  · exact .inl ⟨Int.negSucc_lt_zero 0, rfl⟩
  · exact .inr (Int.le_refl 0)
  · rfl
  · rfl

/-- `do_interval` needs an interval that does not overflow. -/
theorem runs_doInterval_iff (dest : IntVar) :
    Runs (doInterval dest) args cfg ↔ ∀ s, strs[1]? = some s → IntervalFits s := by
  by_cases hargc : args.argc < 2
  · have hnone : strs[1]? = none := List.getElem?_eq_none (h.1 ▸ Nat.le_of_lt_succ hargc)
    have hrun : (doInterval dest args cfg).run [] = some ((-1, cfg), []) := by
      rw [doInterval, if_pos hargc]
      rfl
    exact iff_of_true (runs_error cfg (by decide) hrun) fun s hs =>
      absurd (hs.symm.trans hnone) (Option.some_ne_none s)
  · obtain ⟨s, hs, harg⟩ := exists_second h hargc
    have hrun : (doInterval dest args cfg).run [] =
        (parseInterval s).map fun t => ((0, cfg.setInt dest (t.bmod (2 ^ 32))), [1]) := by
      rw [doInterval, if_neg hargc, StateT.run_bind, argString_run [] harg, Option.bind_eq_bind,
        Option.bind_some]
      dsimp only
      cases parseInterval s <;> rfl
    have hfits := fun t => parseInterval_eq_some (zero_not_mem_arg harg) (t := t)
    constructor
    · rintro ⟨ret, cfg', reads, hsome, -⟩ s' hs'
      rw [hrun] at hsome
      obtain ⟨t, ht, -⟩ := Option.map_eq_some_iff.mp hsome
      rw [Option.some.inj (hs'.symm.trans hs)]
      exact ((hfits t).mp ht).1
    · intro hall
      have ht := (hfits _).mpr ⟨hall s hs, rfl⟩
      rw [ht, Option.map_some] at hrun
      refine ⟨_, _, _, hrun, .inr ⟨Int.le_refl 0, fun i hi => ?_⟩, fun _ hu => .inl hu⟩
      rw [List.mem_singleton.mp hi]
      exact Nat.lt_of_not_le fun hle => hargc (Nat.lt_succ_of_le hle)

/-- `do_uplink` needs a fourth argument if the third one is `json`. -/
theorem runs_doUplink_iff :
    Runs (doUplink (F := F)) args cfg ↔
      ¬ (strs.length = 3 ∧ ∃ s, strs[2]? = some s ∧ strcasecmpEq s (ascii "json") = true) := by
  by_cases hargc : args.argc < 3
  · have hrun : (doUplink args cfg).run [] = some ((-1, cfg), []) := by
      rw [doUplink, if_pos hargc]
      rfl
    exact iff_of_true (runs_error cfg (by decide) hrun) fun ⟨hlen, _⟩ =>
      absurd (h.1.trans hlen) (Nat.ne_of_lt hargc)
  · have hlen : 2 < strs.length := h.1 ▸ Nat.lt_of_not_le fun hle => hargc (Nat.lt_succ_of_le hle)
    have hs : strs[2]? = some strs[2] := List.getElem?_eq_getElem hlen
    rw [Runs, doUplink, if_neg hargc, StateT.run_bind, argString_run [] (h.2.1 2 hlen),
      Option.bind_eq_bind, Option.bind_some]
    dsimp only
    by_cases hjson : strcasecmpEq strs[2] (ascii "json") = true
    · rw [if_pos hjson]
      simp only [StateT.run_bind, hstrdup_run _ (h.2.1 1 (by omega)), Option.bind_eq_bind,
        Option.bind_some]
      by_cases hthree : strs.length = 3
      -- the fourth entry is `NULL`
      · have hnull : args.arg 3 = some none := by
          have hlast := h.2.2
          rwa [h.1, hthree] at hlast
        rw [hstrdup_null _ hnull]
        refine iff_of_false ?_ fun hnot => hnot ⟨hthree, _, hs, hjson⟩
        rintro ⟨ret, cfg', reads, hsome, -⟩
        cases hsome
      · have hfour : 3 < strs.length := by omega
        rw [hstrdup_run _ (h.2.1 3 hfour)]
        refine iff_of_true ⟨_, _, _, rfl, .inr ⟨Int.le_refl 0, ?_⟩, fun u hu => ?_⟩
          fun hnot => hthree hnot.1
        · simp only [List.nil_append, List.cons_append, List.forall_mem_cons]
          rw [h.1]
          exact ⟨hlen, by omega, hfour, fun _ hi => nomatch hi⟩
        · rcases List.mem_cons.mp hu with rfl | hu
          · exact .inr ⟨Option.some_ne_none _, Option.some_ne_none _⟩
          · exact .inl hu
    · rw [if_neg hjson]
      refine iff_of_true ⟨_, _, _, rfl, .inl ⟨Int.negSucc_lt_zero 1, rfl⟩, fun _ hu => .inl hu⟩ ?_
      rintro ⟨-, s, hs', htrue⟩
      rw [Option.some.inj (hs'.symm.trans hs)] at htrue
      exact hjson htrue

end Handlers

/-! ## The table

A command's condition depends on its handler only. -/

/-- What a command needs of its arguments. -/
def CommandAccepts (name : String) (args : List (List UInt8)) : Prop :=
  (name = "uplink" →
    ¬ (args.length = 3 ∧ ∃ s, args[2]? = some s ∧ strcasecmpEq s (ascii "json") = true)) ∧
  (name = "statsinterval" ∨ name = "expiryinterval" →
    ∀ s, args[1]? = some s → IntervalFits s)

/-- Of most commands nothing is needed. -/
theorem commandAccepts_plain {name : String} {args : List (List UInt8)}
    (h : name ∉ ["uplink", "statsinterval", "expiryinterval"]) : CommandAccepts name args := by
  simp only [List.mem_cons, List.not_mem_nil, or_false, not_or] at h
  exact ⟨fun heq => absurd heq h.1, fun heq => absurd heq (not_or.mpr h.2)⟩

/-- Each command of `cfg_cmds` does what is asked for the arguments it accepts. -/
theorem runs_cfgCmds {args : ParsedArgs} {strs : List (List UInt8)} (h : args.Holds strs)
    (cfg : CfgVars F) (atof : List UInt8 → F) :
    ∀ cmd ∈ cfgCmds atof, Runs cmd.function args cfg ↔ CommandAccepts cmd.name strs := by
  have hplain : ∀ {name : String} {function : Handler F}, Runs function args cfg →
      name ∉ ["uplink", "statsinterval", "expiryinterval"] →
      (Runs function args cfg ↔ CommandAccepts name strs) := fun hruns hname =>
    iff_of_true hruns (commandAccepts_plain hname)
  have hstring := fun dest => runs_doString h cfg dest
  simp only [cfgCmds, List.forall_mem_cons]
  refine ⟨hplain (hstring _) (by decide), hplain (hstring _) (by decide),
    hplain (hstring _) (by decide), hplain (runs_doFloat h cfg _ _) (by decide),
    hplain (runs_doFloat h cfg _ _) (by decide), ?_, ?_, ?_,
    hplain (hstring _) (by decide), hplain (hstring _) (by decide),
    hplain (hstring _) (by decide), hplain (hstring _) (by decide),
    hplain (runs_doToggle h cfg _) (by decide), hplain (runs_doInt h cfg _) (by decide),
    hplain (hstring _) (by decide), hplain (hstring _) (by decide),
    hplain (hstring _) (by decide), hplain (runs_doSoundCh h cfg _) (by decide),
    hplain (runs_doInt h cfg _) (by decide), hplain (hstring _) (by decide),
    hplain (hstring _) (by decide), hplain (runs_doSkipType h cfg) (by decide),
    fun _ hmem => nomatch hmem⟩
  · rw [runs_doInterval_iff h, CommandAccepts]
    exact ⟨fun hall => ⟨fun heq => absurd heq (by decide), fun _ => hall⟩, fun hall => hall.2 (.inl rfl)⟩
  · rw [runs_doInterval_iff h, CommandAccepts]
    exact ⟨fun hall => ⟨fun heq => absurd heq (by decide), fun _ => hall⟩, fun hall => hall.2 (.inr rfl)⟩
  · rw [runs_doUplink_iff h, CommandAccepts]
    exact ⟨fun hnot => ⟨fun _ => hnot, fun heq => absurd heq (by decide)⟩, fun hall => hall.1 rfl⟩

/-! ## `strlwr`

The first argument is made lower case in the line itself, so the pointers to the other
arguments stay right. -/

/-- The characters become lower case up to the terminator, and nothing else is changed. -/
theorem strlwrLoop_eq {turns : ℕ} {s : List UInt8} (hs : 0 ∉ s) (hturns : s.length < turns)
    (front rest : List UInt8) :
    strlwrLoop turns (front ++ (s ++ 0 :: rest)) front.length =
      some (front ++ (s.map tolower ++ 0 :: rest)) := by
  induction turns generalizing s front with
  | zero => exact absurd hturns (Nat.not_lt_zero _)
  | succ turns ih =>
    rw [strlwrLoop, stringAt_append hs rest]
    cases s with
    | nil => rfl
    | cons c s =>
      have hnext := ih (fun hmem => hs (List.mem_cons_of_mem _ hmem)) (Nat.lt_of_succ_lt_succ hturns)
        (front ++ [tolower c])
      rw [List.length_append, List.length_singleton, List.append_assoc, List.append_assoc,
        List.singleton_append, List.singleton_append] at hnext
      simp only [Option.bind_eq_bind, Option.bind_some]
      rw [List.cons_append, put_append, Option.bind_some, hnext]
      rfl

/-- A letter that `tolower` changes. -/
theorem toNat_lower {c : UInt8} (h : 65 ≤ c ∧ c ≤ 90) :
    97 ≤ (c + 32).toNat ∧ (c + 32).toNat ≤ 122 := by
  have hlow : 65 ≤ c.toNat := UInt8.le_iff_toNat_le.mp h.1
  have hhigh : c.toNat ≤ 90 := UInt8.le_iff_toNat_le.mp h.2
  have hadd : (c + 32).toNat = (c.toNat + 32) % 256 := UInt8.toNat_add c 32
  omega

/-- No character becomes a terminator. -/
theorem tolower_ne_zero {c : UInt8} (hc : c ≠ 0) : tolower c ≠ 0 := by
  rw [tolower]
  split
  · rename_i h
    intro hzero
    have hrange := toNat_lower h
    rw [hzero] at hrange
    exact absurd hrange (by decide)
  · exact hc

/-- Lower case stays lower case. -/
theorem tolower_tolower (c : UInt8) : tolower (tolower c) = tolower c := by
  rw [tolower.eq_def c]
  split
  · rename_i h
    have hrange := toNat_lower h
    refine if_neg fun h' => ?_
    have hhigh : (c + 32).toNat ≤ 90 := UInt8.le_iff_toNat_le.mp h'.2
    omega
  · rename_i h
    exact if_neg h

/-- The first argument becomes lower case, and the others stay. -/
theorem ArgPointers.strlwr {mem : List UInt8} {pos : ℕ} {ptrs : List ℕ} {arg : List UInt8}
    {args : List (List UInt8)} (h : ArgPointers mem (pos :: ptrs) (arg :: args)) :
    ∃ mem', Gnuais.strlwr mem pos = some mem' ∧
      ArgPointers mem' (pos :: ptrs) (arg.map tolower :: args) := by
  obtain ⟨hstrings, hapart⟩ := h
  obtain ⟨harg, hargs⟩ := List.forall₂_cons.mp hstrings
  rw [List.zip_cons_cons, List.pairwise_cons] at hapart
  obtain ⟨hzero, rest, hdrop⟩ := cStringList_some harg
  have hlt := stringAt_lt harg
  obtain ⟨front, hfront, rfl⟩ : ∃ front, front.length = pos ∧ mem = front ++ (arg ++ 0 :: rest) :=
    ⟨mem.take pos, List.length_take_of_le (by omega), by rw [← hdrop, List.take_append_drop]⟩
  subst hfront
  have hlower : 0 ∉ arg.map tolower := fun hmem => by
    obtain ⟨c, hc, hcz⟩ := List.mem_map.mp hmem
    exact tolower_ne_zero (fun h => hzero (h ▸ hc)) hcz
  have hturns : arg.length < (front ++ (arg ++ 0 :: rest)).length + 1 := by
    rw [List.length_append, List.length_append]
    omega
  refine ⟨_, strlwrLoop_eq hzero hturns front rest, .cons (stringAt_append hlower rest) ?_, ?_⟩
  -- the other arguments stand behind the first one
  · obtain ⟨hlen, hzip⟩ := List.forall₂_iff_zip.mp hargs
    refine List.forall₂_iff_zip.mpr ⟨hlen, fun {p a} hmem => ?_⟩
    have hbehind : front.length + arg.length < p := hapart.1 (p, a) hmem
    have hsame : ∀ xs : List UInt8, xs.length = arg.length →
        (front ++ (xs ++ 0 :: rest)).drop p = (0 :: rest).drop (p - (front.length + arg.length)) := by
      intro xs hxs
      rw [← List.append_assoc, List.drop_append, List.drop_eq_nil_of_le, List.nil_append,
        List.length_append, hxs]
      rw [List.length_append, hxs]
      omega
    have hstring := hzip hmem
    rw [stringAt, hsame arg rfl] at hstring
    rw [stringAt, hsame _ (List.length_map tolower)]
    exact hstring
  · rw [List.zip_cons_cons, List.pairwise_cons, List.length_map]
    exact hapart

/-! ## `cmdparse`

What a line does is what the command that is found does, with the arguments of the line. -/

/-- Case makes no difference for the command that is found. -/
theorem strncasecmpEq_lower (name directive : List UInt8) :
    strncasecmpEq name (directive.map tolower) (directive.map tolower).length =
      strncasecmpEq name directive directive.length := by
  have hlower : (directive.map tolower).map tolower = directive.map tolower := by
    rw [List.map_map]
    exact List.map_congr_left fun c _ => tolower_tolower c
  rw [strncasecmpEq, strncasecmpEq, List.take_length, List.take_length, List.length_map, hlower]

/-- The command that a directive is an abbreviation of. -/
def findCmd (cmds : List (CfgCmd F)) (directive : List UInt8) : Option (CfgCmd F) :=
  cmds.find? fun cmd => strncasecmpEq (ascii cmd.name) directive directive.length

/-- The arguments of a line that `cmdparse` handles as it should: the command that is
found accepts them. -/
def LineAccepts (cmds : List (CfgCmd F)) : List (List UInt8) → Prop
  | [] => True
  | directive :: args => ∀ cmd, findCmd cmds directive = some cmd →
      CommandAccepts cmd.name (directive :: args)

/-- No command starts with the sign of a comment. -/
theorem findCmd_comment (atof : List UInt8 → F) {directive : List UInt8}
    (h : directive.head? = some 35) : findCmd (cfgCmds atof) directive = none := by
  obtain ⟨s, rfl⟩ := List.head?_eq_some_iff.mp h
  refine List.find?_eq_none.mpr fun cmd hcmd => ?_
  have hnames : ∀ name ∈ (cfgCmds fun _ => ()).map CfgCmd.name,
      ((ascii name).map tolower).head? ≠ some 35 := by decide
  have hname : cmd.name ∈ (cfgCmds fun _ => ()).map CfgCmd.name :=
    List.mem_map_of_mem (f := CfgCmd.name) hcmd
  intro heq
  have hne := hnames _ hname
  rw [strncasecmpEq, List.take_length, decide_eq_true_iff] at heq
  cases hchars : ascii cmd.name with
  | nil =>
    rw [hchars] at heq
    cases heq
  | cons c chars =>
    rw [hchars, List.length_cons, List.take_succ_cons, List.map_cons, List.map_cons] at heq
    rw [hchars, List.map_cons, (List.cons.inj heq).1] at hne
    exact hne rfl

/-- A line without arguments. -/
theorem cmdparse_empty (cmds : List (CfgCmd F)) {text : List UInt8} {r : ParsedArgs}
    (hparse : parseArgs text = some r) (hargc : r.argc = 0) (cfg : CfgVars F) :
    cmdparse cmds text cfg = some ⟨0, cfg, 0, []⟩ := by
  rw [cmdparse, hparse, Option.bind_eq_bind, Option.bind_some, if_pos hargc]
  rfl

/-- A line with a directive: its command gets the arguments as they stand in the line,
the first one in lower case. -/
theorem cmdparse_cons (cmds : List (CfgCmd F)) {text mem : List UInt8} {pos : ℕ} {ptrs : List ℕ}
    {directive : List UInt8} {args : List (List UInt8)}
    (hparse : parseArgs text = some (finishArgs mem (pos :: ptrs)))
    (hstored : ArgPointers mem (pos :: ptrs) (directive :: args)) (cfg : CfgVars F) :
    ∃ mem', ArgPointers mem' (pos :: ptrs) (directive.map tolower :: args) ∧
      cmdparse cmds text cfg =
        if directive.head? = some 35 then some ⟨0, cfg, 0, []⟩
        else match findCmd cmds directive with
          | none => some ⟨-1, cfg, 0, []⟩
          | some cmd => ((cmd.function (finishArgs mem' (pos :: ptrs)) cfg).run []).map
              fun ((ret, cfg), reads) => ⟨ret, cfg, (finishArgs mem' (pos :: ptrs)).argc, reads⟩ := by
  obtain ⟨mem', hlower, hstored'⟩ := hstored.strlwr
  obtain ⟨hdirective, -⟩ := List.forall₂_cons.mp hstored.strings
  obtain ⟨hdirective', -⟩ := List.forall₂_cons.mp hstored'.strings
  have hargc : (finishArgs mem (pos :: ptrs)).argc ≠ 0 := Nat.succ_ne_zero _
  have hfind : (cmds.find? fun cmd => strncasecmpEq (ascii cmd.name) (directive.map tolower)
      (directive.map tolower).length) = findCmd cmds directive := by
    simp only [strncasecmpEq_lower, findCmd]
  refine ⟨mem', hstored', ?_⟩
  rw [cmdparse, hparse, Option.bind_eq_bind, Option.bind_some, if_neg hargc]
  have hstart : (finishArgs mem (pos :: ptrs)).argv[0]?.join = some pos := rfl
  have hmem : (finishArgs mem (pos :: ptrs)).mem = mem := rfl
  simp only [hstart, hmem, Option.bind_eq_bind, Option.bind_some, hdirective]
  split
  · rfl
  · simp only [hlower, Option.bind_some, hdirective', hfind]
    cases findCmd cmds directive with
    | none => rfl
    | some cmd =>
      dsimp only
      have hargs : ({ finishArgs mem (pos :: ptrs) with mem := mem' } : ParsedArgs) =
        finishArgs mem' (pos :: ptrs) := rfl
      rw [hargs]
      cases (cmd.function (finishArgs mem' (pos :: ptrs)) cfg).run [] <;> rfl

/-- The line is handled as it should be if and only if the command that is found for it
accepts its arguments. The condition is on the line alone. It fails for an uplink without
an address and for an interval that overflows. -/
theorem cmdparse_sound_iff (atof : List UInt8 → F) (cfg : CfgVars F) {line : List UInt8}
    (hline : 0 ∉ line) (rest : List UInt8) :
    (∃ r, cmdparse (cfgCmds atof) (line ++ 0 :: rest) cfg = some r ∧ r.Sound cfg) ↔
      ∀ args, tokens 255 line = some args → LineAccepts (cfgCmds atof) args := by
  have hparse := parseArgs_tokens hline rest
  have hnothing : Handled.Sound cfg ⟨0, cfg, 0, []⟩ :=
    ⟨.inr ⟨Int.le_refl 0, fun _ hi => nomatch hi⟩, fun _ hu => .inl hu⟩
  cases htokens : tokens 255 line with
  -- a line that `parse_args` gives up is no error
  | none =>
    rw [htokens] at hparse
    obtain ⟨r, hr, hargc⟩ := hparse
    exact iff_of_true ⟨_, cmdparse_empty _ hr hargc cfg, hnothing⟩ fun args heq => nomatch heq
  | some args =>
    rw [htokens] at hparse
    obtain ⟨mem, ptrs, hr, hstored⟩ := hparse
    have hargs : (∀ args', some args = some args' → LineAccepts (cfgCmds atof) args') ↔
        LineAccepts (cfgCmds atof) args :=
      ⟨fun hall => hall args rfl, fun hargs args' heq => Option.some.inj heq ▸ hargs⟩
    rw [hargs]
    cases hstored.strings with
    | nil => exact iff_of_true ⟨_, cmdparse_empty _ hr rfl cfg, hnothing⟩ trivial
    | @cons pos directive ptrs args _ _ =>
      obtain ⟨mem', hstored', hrun⟩ := cmdparse_cons (cfgCmds atof) hr hstored cfg
      rw [hrun, LineAccepts]
      split
      · -- a comment is not looked up
        rename_i hcomment
        refine iff_of_true ⟨_, rfl, hnothing⟩ fun cmd hcmd => ?_
        rw [findCmd_comment atof hcomment] at hcmd
        cases hcmd
      · cases hfind : findCmd (cfgCmds atof) directive with
        | none =>
          refine iff_of_true ⟨_, rfl, .inl ⟨Int.negSucc_lt_zero 0, rfl⟩, fun _ hu => .inl hu⟩ ?_
          exact fun cmd hcmd => nomatch hcmd
        | some cmd =>
          have hruns := runs_cfgCmds hstored'.holds cfg atof cmd (List.mem_of_find?_eq_some hfind)
          -- what a command accepts does not depend on the first argument
          have haccepts : (∀ cmd', some cmd = some cmd' →
              CommandAccepts cmd'.name (directive :: args)) ↔
                CommandAccepts cmd.name (directive.map tolower :: args) :=
            ⟨fun hall => hall cmd rfl, fun hcmd cmd' heq => Option.some.inj heq ▸ hcmd⟩
          rw [haccepts, ← hruns]
          constructor
          · rintro ⟨r, hr, hsound⟩
            obtain ⟨⟨⟨ret, cfg'⟩, reads⟩, hsome, rfl⟩ := Option.map_eq_some_iff.mp hr
            exact ⟨ret, cfg', reads, hsome, hsound⟩
          · rintro ⟨ret, cfg', reads, hsome, hsound⟩
            refine ⟨_, ?_, hsound⟩
            dsimp only
            rw [hsome]
            rfl

/-- A label, a protocol and an address. -/
theorem cmdparse_sound_iff_uplink :
    ∃ r, cmdparse (cfgCmds fun _ => ()) (ascii "Uplink sea json http://localhost" ++ 0 :: [])
        ⟨fun _ => none, fun _ => 0, fun _ => (), fun _ => 0, []⟩ = some r ∧
      r.Sound ⟨fun _ => none, fun _ => 0, fun _ => (), fun _ => 0, []⟩ := by
  have hline : 0 ∉ ascii "Uplink sea json http://localhost" := by decide
  refine (cmdparse_sound_iff _ _ hline []).mpr fun args hargs => ?_
  have htokens : tokens 255 (ascii "Uplink sea json http://localhost") =
      some [ascii "Uplink", ascii "sea", ascii "json", ascii "http://localhost"] := by decide
  rw [← Option.some.inj (htokens.symm.trans hargs)]
  intro cmd hcmd
  have hname : (findCmd (cfgCmds fun _ => ()) (ascii "Uplink")).map CfgCmd.name = some "uplink" := by
    decide
  rw [hcmd] at hname
  rw [Option.some.inj hname]
  exact ⟨fun _ hthree => absurd hthree.1 (by decide), fun heq => absurd heq (by decide)⟩

/-- Without the address the fourth argument is read all the same. -/
theorem uplink_reads_null :
    ¬ ∃ r, cmdparse (cfgCmds fun _ => ()) (ascii "uplink sea json" ++ [0])
        ⟨fun _ => none, fun _ => 0, fun _ => (), fun _ => 0, []⟩ = some r ∧
      r.Sound ⟨fun _ => none, fun _ => 0, fun _ => (), fun _ => 0, []⟩ := by
  have hnone : (cmdparse (cfgCmds fun _ => ()) (ascii "uplink sea json" ++ [0])
      ⟨fun _ => none, fun _ => 0, fun _ => (), fun _ => 0, []⟩).isNone = true := by decide +kernel
  rintro ⟨r, hr, -⟩
  rw [hr] at hnone
  cases hnone

end Gnuais
