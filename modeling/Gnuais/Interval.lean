import Gnuais.Cfg
import Mathlib.Algebra.BigOperators.Ring.Finset
import Mathlib.Algebra.Order.BigOperators.Group.List
import Mathlib.Algebra.Order.Group.Nat

/-!
# Intervals

`parse_interval` cuts its copy at each character that is no digit and reads the
number in front of it, so an interval is a list of numbers with a unit each, and
what stands behind the last unit (`intervalItems`). It returns their sum as long as
no product and no sum overflows (`parseInterval_eq`), and that is the case when the
interval is written for a number of seconds that fits in an `int`
(`doInterval_items`).
-/

namespace Gnuais

open CString

/-! ## The numbers of an interval

What an interval means is said by the list of its items. Where the code cuts its copy and
what it leaves in it does not matter. -/

/-- The numbers that stand in front of a character that is no digit, with it, and what
stands behind the last one. The first number starts with `digits`. -/
def intervalItems : List UInt8 → List UInt8 → List (List UInt8 × UInt8) × List UInt8
  | digits, [] => ([], digits)
  | digits, c :: s =>
    if IsDigit c then intervalItems (digits ++ [c]) s
    else ((digits, c) :: (intervalItems [] s).1, (intervalItems [] s).2)

/-- The seconds of a unit; other characters count for nothing. -/
def unitSeconds (c : UInt8) : ℤ :=
  if c = 115 then 1
  else if c = 109 then 60
  else if c = 104 then 60 * 60
  else if c = 100 then 24 * 60 * 60
  else 0

/-- The seconds of a number with its unit. -/
def itemSeconds (item : List UInt8 × UInt8) : ℤ := unitSeconds (tolower item.2) * atoi item.1

/-- Each sum fits in a `time_t`. -/
def SumsFit : ℤ → List ℤ → Prop
  | _, [] => True
  | t, n :: ns => InTime (t + n) ∧ SumsFit (t + n) ns

/-- What `parse_interval` computes fits in its types. -/
def IntervalFits (origs : List UInt8) : Prop :=
  (∀ item ∈ (intervalItems [] origs).1, InInt (itemSeconds item)) ∧
    SumsFit 0 ((intervalItems [] origs).1.map itemSeconds ++ [atoi (intervalItems [] origs).2])

/-- The seconds of an interval. -/
def intervalSeconds (origs : List UInt8) : ℤ :=
  ((intervalItems [] origs).1.map itemSeconds).sum + atoi (intervalItems [] origs).2

/-! ## One number

A number is read by `atoi` in front of its unit, multiplied in `int` and added in
`time_t`. Each of the two can overflow. -/

/-- A sum that fits. -/
theorem addTime_eq_some {t n t' : ℤ} : addTime t n = some t' ↔ InTime (t + n) ∧ t' = t + n := by
  rw [addTime]
  split
  · rename_i h
    rw [Option.some_inj, and_iff_right h, eq_comm]
  · rename_i h
    exact iff_of_false (fun heq => nomatch heq) fun heq => h heq.1

/-- A turn at a unit adds its seconds. -/
theorem addUnit_eq_some {c : UInt8} {i t t' : ℤ} (hi : InInt i) (ht : InTime t) :
    addUnit c i t = some t' ↔
      InInt (unitSeconds c * i) ∧ InTime (t + unitSeconds c * i) ∧ t' = t + unitSeconds c * i := by
  have hproduct : ∀ k : ℤ, (do addTime t (← int (k * i)) : Option ℤ) = some t' ↔
      InInt (k * i) ∧ InTime (t + k * i) ∧ t' = t + k * i := by
    intro k
    rw [int]
    split
    · rename_i h
      exact addTime_eq_some.trans (and_iff_right h).symm
    · rename_i h
      exact iff_of_false (fun heq => nomatch heq) fun heq => h heq.1
  rw [addUnit, unitSeconds]
  split_ifs
  · rw [Int.one_mul, and_iff_right hi]
    exact addTime_eq_some
  · exact hproduct 60
  · exact hproduct (60 * 60)
  · exact hproduct (24 * 60 * 60)
  · rw [Int.zero_mul, Int.add_zero, Option.some_inj, and_iff_right (by decide : InInt 0),
      and_iff_right ht, eq_comm]

/-- What `atoi` gives is an `int`. -/
theorem inInt_atoi (s : List UInt8) : InInt (atoi s) := by
  unfold InInt atoi
  dsimp only
  generalize (if (scan 10 s).negative = true then _ else _ : ℤ) = long
  have hle := Int.le_bmod (x := long) (m := 2 ^ 32) (by decide)
  have hlt := Int.bmod_lt (x := long) (m := 2 ^ 32) (by decide)
  omega

/-! ## The loop

The loop is shown to be a fold over the items. -/

/-- Adding up what `intervalItems` finds. -/
def addItems : ℤ → List (List UInt8 × UInt8) → List UInt8 → Option ℤ
  | t, [], last => if last = [] then some t else addTime t (atoi last)
  | t, item :: items, last =>
    (addUnit (tolower item.2) (atoi item.1) t).bind fun t => addItems t items last

/-- `np` stands at `digits`, the start of a number, and `p` at `s`, the rest of the
copy. -/
theorem parseIntervalLoop_eq {turns : ℕ} {s : List UInt8} (hs : 0 ∉ s) (hturns : s.length < turns)
    (front : List UInt8) {digits : List UInt8} (hdigits : 0 ∉ digits) (rest : List UInt8) (t : ℤ) :
    parseIntervalLoop turns (front ++ (digits ++ (s ++ 0 :: rest))) front.length
        (front.length + digits.length) t =
      addItems t (intervalItems digits s).1 (intervalItems digits s).2 := by
  induction turns generalizing s front digits t with
  | zero => exact absurd hturns (Nat.not_lt_zero _)
  | succ turns ih =>
    have hp : stringAt (front ++ (digits ++ (s ++ 0 :: rest))) (front.length + digits.length) =
        some s := by
      rw [← List.append_assoc, ← List.length_append]
      exact stringAt_append hs rest
    rw [parseIntervalLoop, hp]
    simp only [Option.bind_eq_bind, Option.bind_some]
    cases s with
    | nil =>
      have hnp : stringAt (front ++ (digits ++ ([] ++ 0 :: rest))) front.length = some digits :=
        stringAt_append hdigits rest
      dsimp only
      rw [hnp]
      rfl
    | cons c s =>
      have hs' : 0 ∉ s := fun hmem => hs (List.mem_cons_of_mem _ hmem)
      have hlen : s.length < turns := Nat.lt_of_succ_lt_succ hturns
      dsimp only
      rw [intervalItems]
      split
      · -- a digit more
        have hc : 0 ∉ digits ++ [c] := fun hmem =>
          (List.mem_append.mp hmem).elim hdigits fun hmem =>
            hs (List.mem_singleton.mp hmem ▸ List.mem_cons_self)
        have hnext := ih hs' hlen front hc t
        rw [List.append_assoc, List.length_append, List.length_singleton, ← Nat.add_assoc] at hnext
        exact hnext
      -- the number is cut, and the next one starts behind its unit
      · have hput : put (front ++ (digits ++ (c :: s ++ 0 :: rest))) (front.length + digits.length) 0 =
            some (front ++ (digits ++ 0 :: (s ++ 0 :: rest))) := by
          rw [← List.append_assoc, ← List.length_append, List.cons_append, put_append,
            List.append_assoc]
        have hnp : stringAt (front ++ (digits ++ 0 :: (s ++ 0 :: rest))) front.length = some digits :=
          stringAt_append hdigits _
        have hmem : front ++ (digits ++ 0 :: (s ++ 0 :: rest)) =
            (front ++ digits ++ [0]) ++ ([] ++ (s ++ 0 :: rest)) := by
          simp only [List.append_assoc, List.singleton_append, List.nil_append]
        have hlen' : front.length + digits.length + 1 = (front ++ digits ++ [0]).length := by
          rw [List.length_append, List.length_append, List.length_singleton]
        rw [hput, Option.bind_some, hnp, Option.bind_some, addItems]
        congr 1
        funext t
        rw [hmem, hlen']
        exact ih hs' hlen (front ++ digits ++ [0]) List.not_mem_nil t

/-- From the start of the string. -/
theorem parseInterval_eq_addItems {origs : List UInt8} (h : 0 ∉ origs) :
    parseInterval origs = addItems 0 (intervalItems [] origs).1 (intervalItems [] origs).2 :=
  parseIntervalLoop_eq h (Nat.lt_succ_self _) [] List.not_mem_nil [] 0

/-! ## The sum

Whether a sum overflows on its way is asked of every part of it, in order. -/

/-- The numbers are added up as long as everything fits. -/
theorem addItems_eq_some {t t' : ℤ} (ht : InTime t) {items : List (List UInt8 × UInt8)}
    {last : List UInt8} :
    addItems t items last = some t' ↔
      ((∀ item ∈ items, InInt (itemSeconds item)) ∧
        SumsFit t (items.map itemSeconds ++ [atoi last])) ∧
      t' = t + ((items.map itemSeconds).sum + atoi last) := by
  induction items generalizing t with
  | nil =>
    have hnil : addItems t [] last = addTime t (atoi last) := by
      rw [addItems]
      split
      · rename_i hlast
        rw [hlast, addTime, show atoi [] = 0 from rfl, Int.add_zero, if_pos ht]
      · rfl
    rw [hnil, addTime_eq_some, List.map_nil, List.nil_append, List.sum_nil, Int.zero_add]
    simp only [SumsFit, and_true, List.not_mem_nil, false_implies, implies_true, true_and]
  | cons item items ih =>
    rw [addItems, Option.bind_eq_some_iff, List.map_cons, List.cons_append, List.sum_cons,
      List.forall_mem_cons, SumsFit]
    constructor
    · rintro ⟨t₁, hunit, hrest⟩
      obtain ⟨hproduct, hsum, rfl⟩ := (addUnit_eq_some (inInt_atoi _) ht).mp hunit
      obtain ⟨⟨hproducts, hsums⟩, rfl⟩ := (ih hsum).mp hrest
      refine ⟨⟨⟨hproduct, hproducts⟩, hsum, hsums⟩, ?_⟩
      rw [itemSeconds]
      omega
    · rintro ⟨⟨⟨hproduct, hproducts⟩, hsum, hsums⟩, rfl⟩
      refine ⟨t + itemSeconds item,
        (addUnit_eq_some (inInt_atoi _) ht).mpr ⟨hproduct, hsum, rfl⟩,
        (ih hsum).mpr ⟨⟨hproducts, hsums⟩, ?_⟩⟩
      omega

/-- `parse_interval` returns the seconds of the interval if they can be computed in its
types, and overflows otherwise. -/
theorem parseInterval_eq_some {origs : List UInt8} (h : 0 ∉ origs) {t : ℤ} :
    parseInterval origs = some t ↔ IntervalFits origs ∧ t = intervalSeconds origs := by
  rw [parseInterval_eq_addItems h, addItems_eq_some (by decide), Int.zero_add]
  rfl

/-! ## Intervals as they are written

If the whole sum fits in an `int`, so does every item and every sum on the way, since
there are no negative numbers in it. -/

/-- The letters of the units, each with its seconds. -/
def intervalUnits : List (UInt8 × ℕ) :=
  [(115, 1), (83, 1), (109, 60), (77, 60), (104, 3600), (72, 3600), (100, 86400), (68, 86400)]

/-- A number of seconds, minutes, hours or days. -/
structure IntervalItem where
  /-- the number, with any zeros in front -/
  digits : List UInt8
  /-- its letter -/
  unit : UInt8
  /-- what the letter stands for -/
  seconds : ℕ
  /-- there is a number -/
  digits_ne_nil : digits ≠ []
  /-- and nothing else in front of the letter -/
  isDigit : ∀ c ∈ digits, IsDigit c
  /-- the letter is a unit -/
  unit_seconds : (unit, seconds) ∈ intervalUnits

namespace IntervalItem

def text (item : IntervalItem) : List UInt8 := item.digits ++ [item.unit]

/-- The seconds that are meant. -/
def total (item : IntervalItem) : ℕ := numberOf 10 item.digits * item.seconds

/-- A unit is no digit, and stands for its seconds in small letters too. -/
theorem unit_facts (item : IntervalItem) :
    ¬ IsDigit item.unit ∧ unitSeconds (tolower item.unit) = item.seconds ∧ 1 ≤ item.seconds := by
  have hall : ∀ u ∈ intervalUnits,
      ¬ IsDigit u.1 ∧ unitSeconds (tolower u.1) = u.2 ∧ 1 ≤ u.2 := by decide
  exact hall _ item.unit_seconds

/-- The number itself fits if its seconds do. -/
theorem itemSeconds_eq (item : IntervalItem) (h : item.total < 2 ^ 31) :
    itemSeconds (item.digits, item.unit) = item.total := by
  obtain ⟨-, hunit, hpos⟩ := item.unit_facts
  have hle : numberOf 10 item.digits ≤ item.total := Nat.le_mul_of_pos_right _ hpos
  rw [itemSeconds, hunit, atoi_digits item.isDigit (Nat.lt_of_le_of_lt hle h), total,
    Int.mul_comm, Int.natCast_mul]

end IntervalItem

/-- Digits in front of a unit are its number. -/
theorem intervalItems_digits {ds : List UInt8} (hds : ∀ c ∈ ds, IsDigit c)
    (digits s : List UInt8) :
    intervalItems digits (ds ++ s) = intervalItems (digits ++ ds) s := by
  induction ds generalizing digits with
  | nil => rw [List.append_nil, List.nil_append]
  | cons d ds ih =>
    obtain ⟨hd, hds⟩ := List.forall_mem_cons.mp hds
    rw [List.cons_append, intervalItems, if_pos hd, ih hds, List.append_assoc,
      List.singleton_append]

/-- The numbers of an interval are those it was written for. -/
theorem intervalItems_text (items : List IntervalItem) {last : List UInt8}
    (hlast : ∀ c ∈ last, IsDigit c) :
    intervalItems [] (items.flatMap IntervalItem.text ++ last) =
      (items.map fun item => (item.digits, item.unit), last) := by
  induction items with
  | nil =>
    have hdigits := intervalItems_digits hlast [] []
    rw [List.append_nil, List.nil_append] at hdigits
    exact hdigits
  | cons item items ih =>
    rw [List.flatMap_cons, IntervalItem.text, List.append_assoc, List.append_assoc,
      List.singleton_append, intervalItems_digits item.isDigit, List.nil_append, intervalItems,
      if_neg item.unit_facts.1, ih, List.map_cons]

/-- Sums of natural numbers fit if the last one does. -/
theorem sumsFit_natCast (t : ℕ) (ns : List ℕ) (h : t + ns.sum < 2 ^ 63) :
    SumsFit t (ns.map (Nat.cast : ℕ → ℤ)) := by
  induction ns generalizing t with
  | nil => exact trivial
  | cons n ns ih =>
    rw [List.sum_cons, ← Nat.add_assoc] at h
    rw [List.map_cons, SumsFit, ← Int.natCast_add]
    exact ⟨⟨by omega, by omega⟩, ih _ h⟩

/-- There are no terminators in an interval. -/
theorem zero_not_mem_digits {ds : List UInt8} (hds : ∀ c ∈ ds, IsDigit c) : 0 ∉ ds := fun hmem =>
  absurd (hds 0 hmem) (by decide)

theorem zero_not_mem_intervalText (items : List IntervalItem) {last : List UInt8}
    (hlast : ∀ c ∈ last, IsDigit c) : 0 ∉ items.flatMap IntervalItem.text ++ last := by
  have hall : ∀ u ∈ intervalUnits, u.1 ≠ 0 := by decide
  intro hmem
  rcases List.mem_append.mp hmem with hmem | hmem
  · obtain ⟨item, -, hmem⟩ := List.mem_flatMap.mp hmem
    rcases List.mem_append.mp hmem with hmem | hmem
    · exact zero_not_mem_digits item.isDigit hmem
    · exact hall _ item.unit_seconds (List.mem_singleton.mp hmem).symm
  · exact zero_not_mem_digits hlast hmem

section Written

variable (items : List IntervalItem) {last : List UInt8} (hlast : ∀ c ∈ last, IsDigit c)
  (htotal : (items.map IntervalItem.total).sum + numberOf 10 last < 2 ^ 31)

include hlast htotal

/-- An interval that is written for a number of seconds that fits in an `int` is that
number for `parse_interval`, and nothing overflows. -/
theorem parseInterval_items :
    parseInterval (items.flatMap IntervalItem.text ++ last) =
      some (((items.map IntervalItem.total).sum + numberOf 10 last : ℕ) : ℤ) := by
  have hitem : ∀ item ∈ items, item.total < 2 ^ 31 := fun item hitem => by
    have hle := List.le_sum_of_mem (List.mem_map_of_mem (f := IntervalItem.total) hitem)
    omega
  have hseconds : (items.map fun item => (item.digits, item.unit)).map itemSeconds =
      (items.map IntervalItem.total).map (Nat.cast : ℕ → ℤ) := by
    rw [List.map_map, List.map_map]
    exact List.map_congr_left fun item hmem => item.itemSeconds_eq (hitem item hmem)
  have hatoi : atoi last = numberOf 10 last := atoi_digits hlast (by omega)
  refine (parseInterval_eq_some (zero_not_mem_intervalText items hlast)).mpr ⟨⟨?_, ?_⟩, ?_⟩
  · rw [intervalItems_text items hlast]
    refine List.forall_mem_map.mpr fun item hmem => ?_
    have hlt := hitem item hmem
    rw [item.itemSeconds_eq hlt]
    exact ⟨by omega, by omega⟩
  · rw [intervalItems_text items hlast, hseconds, hatoi]
    have hsums := sumsFit_natCast 0 (items.map IntervalItem.total ++ [numberOf 10 last])
      (by rw [List.sum_append, List.sum_singleton]; omega)
    rw [List.map_append] at hsums
    exact hsums
  · rw [intervalSeconds, intervalItems_text items hlast, hseconds, hatoi, Int.natCast_add,
      Nat.cast_list_sum]

/-- `do_interval` stores the seconds of the interval. -/
theorem doInterval_items {F : Type} {args : ParsedArgs} (hargc : 2 ≤ args.argc)
    (harg : args.arg 1 = some (some (items.flatMap IntervalItem.text ++ last)))
    (dest : IntVar) (cfg : CfgVars F) :
    (doInterval dest args cfg).run [] =
      some ((0, cfg.setInt dest (((items.map IntervalItem.total).sum + numberOf 10 last : ℕ) : ℤ)),
        [1]) := by
  have hint : (((items.map IntervalItem.total).sum + numberOf 10 last : ℕ) : ℤ).bmod (2 ^ 32) =
      ((items.map IntervalItem.total).sum + numberOf 10 last : ℕ) :=
    Int.bmod_eq_of_le_mul_two (by omega) (by omega)
  rw [doInterval, if_neg (Nat.not_lt.mpr hargc), StateT.run_bind, argString_run [] harg]
  simp only [Option.bind_eq_bind, Option.bind_some, StateT.run_bind]
  rw [parseInterval_items items hlast htotal]
  exact congrArg (fun n => some ((0, cfg.setInt dest n), [1])) hint

end Written

/-- `1H` -/
def oneHour : IntervalItem where
  digits := [49]
  unit := 72
  seconds := 3600
  digits_ne_nil := by decide
  isDigit := by decide +kernel
  unit_seconds := by decide

/-- One hour, and thirty seconds without a unit. -/
theorem doInterval_items_hour :
    (doInterval .statsInterval
        (finishArgs (ascii "statsinterval" ++ 0 :: (ascii "1H30" ++ [0])) [0, 14])
        (⟨fun _ => none, fun _ => 0, fun _ => (), fun _ => 0, []⟩ : CfgVars Unit)).run [] =
      some ((0, CfgVars.setInt ⟨fun _ => none, fun _ => 0, fun _ => (), fun _ => 0, []⟩
        .statsInterval 3630), [1]) := by
  have hlast : ∀ c ∈ [(51 : UInt8), 48], IsDigit c := by decide +kernel
  have harg : (finishArgs (ascii "statsinterval" ++ 0 :: (ascii "1H30" ++ [0])) [0, 14]).arg 1 =
      some (some ([oneHour].flatMap IntervalItem.text ++ [51, 48])) := by decide
  have htotal : ([oneHour].map IntervalItem.total).sum + numberOf 10 [51, 48] = 3630 := by
    decide +kernel
  have hrun := doInterval_items [oneHour] hlast (by rw [htotal]; decide) (by decide) harg
    .statsInterval (⟨fun _ => none, fun _ => 0, fun _ => (), fun _ => 0, []⟩ : CfgVars Unit)
  rw [htotal] at hrun
  exact hrun

end Gnuais
