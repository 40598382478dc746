import Gnuais.Filter

/-!
# The filter on a waveform

The 36 coefficients of `receiver.c` weigh two samples in the middle of the window more than
all others together. So where these two have the same sign, that is the sign of the sum, as
long as the samples are of about the same size (`middle_decides`). The sums here are exact
ones; they come out at one at least, which is more than what `float` rounds away.
-/

namespace Gnuais

open Window

/-- `coeffs` -/
def coeffs : List ℚ :=
  [2.5959e-55, 2.9479e-49, 1.4741e-43, 3.2462e-38, 3.1480e-33,
   1.3443e-28, 2.5280e-24, 2.0934e-20, 7.6339e-17, 1.2259e-13,
   8.6690e-11, 2.6996e-08, 3.7020e-06, 2.2355e-04, 5.9448e-03,
   6.9616e-02, 3.5899e-01, 8.1522e-01, 8.1522e-01, 3.5899e-01,
   6.9616e-02, 5.9448e-03, 2.2355e-04, 3.7020e-06, 2.6996e-08,
   8.6690e-11, 1.2259e-13, 7.6339e-17, 2.0934e-20, 2.5280e-24,
   1.3443e-28, 3.1480e-33, 3.2462e-38, 1.4741e-43, 2.9479e-49,
   2.5959e-55]

/-- `COEFFS_L` -/
abbrev coeffsL : ℕ := 36

/-- There are 36 of them. -/
theorem length_coeffs : coeffs.length = coeffsL := rfl

/-! ## Weights

The sums are over the rational numbers, so nothing is rounded. -/

/-- The samples with their weights. -/
def weigh (taps w : List ℚ) : ℚ := (List.zipWith (· * ·) w taps).sum

/-- One sample, and then the others. -/
theorem weigh_cons (c : ℚ) (taps : List ℚ) (x : ℚ) (w : List ℚ) :
    weigh (c :: taps) (x :: w) = x * c + weigh taps w := rfl

theorem weigh_nil (w : List ℚ) : weigh [] w = 0 := by
  rw [weigh, List.zipWith_nil_right]
  rfl

/-- A factor of all samples. -/
theorem weigh_mul (c : ℚ) (w : List ℚ) :
    ∀ taps, weigh taps (w.map fun x => c * x) = c * weigh taps w := by
  induction w with
  | nil => exact fun taps => (mul_zero c).symm
  | cons x w ih =>
    intro taps
    cases taps with
    | nil => rw [weigh_nil, weigh_nil, mul_zero]
    | cons d taps =>
      rw [List.map_cons, weigh_cons, weigh_cons, ih]
      ring

/-- What is known of each sample from below is known of the sum. -/
theorem weigh_le {u : ℚ} {ms w : List ℚ} (h : List.Forall₂ (fun m x => m * u ≤ x) ms w) :
    ∀ {taps : List ℚ}, (∀ c ∈ taps, 0 ≤ c) → u * weigh taps ms ≤ weigh taps w := by
  induction h with
  | nil => exact fun _ => (mul_zero u).le
  | @cons m x ms w hmx _ ih =>
    intro taps htaps
    cases taps with
    | nil => rw [weigh_nil, weigh_nil, mul_zero]
    | cons c taps =>
      have hrest := ih fun d hd => htaps d (List.mem_cons_of_mem _ hd)
      have hfirst := mul_le_mul_of_nonneg_right hmx (htaps c (List.mem_cons_self ..))
      rw [weigh_cons, weigh_cons]
      linarith

/-- The filter's sum. -/
theorem filterMac_weigh {w taps : List ℚ} {size : ℕ} (hw : w.length = size)
    (htaps : taps.length = size) : filterMac w taps size = some (weigh taps w) := by
  have hterms : (List.range size).map (fun i => (w[i]?).getD 0 * (taps[i]?).getD 0) =
      List.zipWith (· * ·) w taps := by
    refine List.ext_getElem (by simp [hw, htaps]) fun i hi _ => ?_
    rw [List.length_map, List.length_range] at hi
    rw [List.getElem_map, List.getElem_range, List.getElem_zipWith,
      List.getElem?_eq_getElem (by omega), List.getElem?_eq_getElem (by omega)]
    rfl
  rw [filterMac_eq hw.ge htaps.ge, weigh, ← hterms, List.sum_eq_foldl, List.foldl_map]

/-! ## Signs

`polarity s * x` is a sample seen from its symbol: it is positive if the sample has the
sign of the symbol, whichever that is. So one lemma does for both signs. -/

/-- The sign of a symbol. -/
def polarity (s : Bool) : ℚ := if s then 1 else -1

/-- A sample of a symbol, between two amplitudes. -/
def Within (lo hi : ℚ) (s : Bool) (x : ℚ) : Prop := lo ≤ polarity s * x ∧ polarity s * x ≤ hi

/-- The amplitudes are not too small and not too far apart. -/
structure OpenEye (lo hi : ℚ) : Prop where
  /-- a sum of the weights is one at least -/
  loud : 16 ≤ lo
  /-- the largest sample is 9/5 of the smallest at most -/
  ratio : 5 * hi ≤ 9 * lo

/-- A sample of any symbol is no worse than the amplitude against it. -/
theorem neg_le_polarity {hi x : ℚ} (h : |x| ≤ hi) (s : Bool) : -hi ≤ polarity s * x := by
  obtain ⟨hlow, hhigh⟩ := abs_le.mp h
  cases s with
  | true => rw [polarity, if_pos rfl]; linarith
  | false => rw [polarity, if_neg Bool.false_ne_true]; linarith

/-- A sample of a symbol is within the amplitude. -/
theorem Within.bounded {lo hi x : ℚ} {s : Bool} (h : Within lo hi s x) (hlo : 0 < lo) :
    |x| ≤ hi := by
  obtain ⟨hlow, hhigh⟩ := h
  rw [abs_le]
  cases s with
  | true =>
    rw [polarity, if_pos rfl] at hlow hhigh
    constructor <;> linarith
  | false =>
    rw [polarity, if_neg Bool.false_ne_true] at hlow hhigh
    constructor <;> linarith

/-- The sum, from what is known of the samples. -/
theorem sum_decides {u : ℚ} {ms w : List ℚ} {s : Bool} (hms : 1 ≤ u * weigh coeffs ms)
    (h : List.Forall₂ (fun m x => m * u ≤ polarity s * x) ms w) :
    1 ≤ polarity s * weigh coeffs w := by
  have hcoeffs : ∀ c ∈ coeffs, 0 ≤ c := by decide +kernel
  have hle := weigh_le (List.forall₂_map_right_iff.mpr h) hcoeffs
  rw [weigh_mul] at hle
  exact hms.trans hle

/-- The same bound for a row of samples. -/
theorem forall₂_replicate {α β : Type} {R : α → β → Prop} {a : α} {ys : List β}
    (h : ∀ y ∈ ys, R a y) : List.Forall₂ R (List.replicate ys.length a) ys := by
  induction ys with
  | nil => exact .nil
  | cons y ys ih =>
    exact .cons (h y (List.mem_cons_self ..)) (ih fun y' hy' => h y' (List.mem_cons_of_mem _ hy'))

/-! ## Windows

A window at `n` holds the 36 samples before it, with zeros in front of the stream. -/

/-- A sample of a window, by its place in the stream. -/
theorem getElem?_before (zs : List ℚ) {n i : ℕ} (hi : i < 36) (hn : 36 ≤ n + i) :
    (before 0 36 zs n)[i]? = zs[n + i - 36]? := by
  rw [before, List.getElem?_take_of_lt hi, List.getElem?_drop, List.getElem?_append_right
    (by rw [List.length_replicate]; exact hn), List.length_replicate]

/-- A sample of a window is one of the stream or a zero. -/
theorem mem_before {zs : List ℚ} {n : ℕ} {x : ℚ} (h : x ∈ before 0 36 zs n) : x = 0 ∨ x ∈ zs := by
  have hmem := List.mem_of_mem_drop (List.mem_of_mem_take h)
  rw [List.mem_append] at hmem
  exact hmem.imp_left List.eq_of_mem_replicate

section Eye

variable {lo hi : ℚ} (heye : OpenEye lo hi) {zs : List ℚ} (hzs : ∀ x ∈ zs, |x| ≤ hi)

include heye

/-- A sample of which the symbol is not known. -/
theorem unknown_le {s : Bool} {x : ℚ} (h : |x| ≤ hi) : -9 * (lo / 5) ≤ polarity s * x := by
  have hratio := heye.ratio
  linarith [neg_le_polarity h s]

/-- How much of the level is left for a sum of one. -/
theorem one_le_level {m : ℚ} (hm : 5 / 16 ≤ m) : 1 ≤ lo / 5 * m := by
  have hu : 16 / 5 ≤ lo / 5 := div_le_div_of_nonneg_right heye.loud (by norm_num)
  calc (1 : ℚ) = 16 / 5 * (5 / 16) := by norm_num
    _ ≤ lo / 5 * m := mul_le_mul hu hm (by norm_num) (by linarith [heye.loud])

omit heye in
/-- A sample of which the symbol is known. -/
theorem known_le {s : Bool} {x : ℚ} (h : Within lo hi s x) : 5 * (lo / 5) ≤ polarity s * x := by
  linarith [h.1]

include hzs

/-- The two samples in the middle decide. -/
theorem middle_decides {n : ℕ} (hlow : 19 ≤ n) (hn : n ≤ zs.length) {s : Bool} {x y : ℚ}
    (hx : zs[n - 19]? = some x) (hxs : Within lo hi s x) (hy : zs[n - 18]? = some y)
    (hys : Within lo hi s y) : 1 ≤ polarity s * weigh coeffs (before 0 36 zs n) := by
  have hlen : (before 0 36 zs n).length = 36 := length_before 0 36 hn
  have hunknown : ∀ z ∈ before 0 36 zs n, -9 * (lo / 5) ≤ polarity s * z := by
    intro z hz
    rcases mem_before hz with rfl | hz
    · rw [mul_zero]
      linarith [heye.loud]
    · exact unknown_le heye (hzs z hz)
  have hxn : n + 17 - 36 = n - 19 := by omega
  have hyn : n + 18 - 36 = n - 18 := by omega
  have hx' : (before 0 36 zs n)[17]? = some x := by
    rw [getElem?_before zs (by decide) (by omega), hxn, hx]
  have hy' : (before 0 36 zs n)[18]? = some y := by
    rw [getElem?_before zs (by decide) (by omega), hyn, hy]
  generalize before 0 36 zs n = w at *
  obtain ⟨_, hxw⟩ := List.getElem?_eq_some_iff.mp hx'
  obtain ⟨_, hyw⟩ := List.getElem?_eq_some_iff.mp hy'
  -- of the 36 samples only the two in the middle are known; the others count at their
  -- worst
  have hsplit : w = w.take 17 ++ x :: y :: w.drop 19 := by
    rw [← hxw, ← hyw, ← List.drop_eq_getElem_cons, ← List.drop_eq_getElem_cons,
      List.take_append_drop]
  have hfront : List.Forall₂ (fun m z => m * (lo / 5) ≤ polarity s * z)
      (List.replicate (w.take 17).length (-9)) (w.take 17) :=
    forall₂_replicate fun z hz => hunknown z (List.mem_of_mem_take hz)
  have hback : List.Forall₂ (fun m z => m * (lo / 5) ≤ polarity s * z)
      (List.replicate (w.drop 19).length (-9)) (w.drop 19) :=
    forall₂_replicate fun z hz => hunknown z (List.mem_of_mem_drop hz)
  rw [List.length_take, hlen] at hfront
  rw [List.length_drop, hlen] at hback
  -- even so the two outweigh them: this is a fact of the coefficients
  have hweight : 5 / 16 ≤
      weigh coeffs (List.replicate 17 (-9) ++ 5 :: 5 :: List.replicate 17 (-9)) := by decide +kernel
  rw [hsplit]
  exact sum_decides (one_le_level heye hweight) (List.rel_append hfront
    (.cons (known_le hxs) (.cons (known_le hys) hback)))

/-- When 16 samples of the signal have come in, its first symbol decides: the samples behind
it have the smaller weights. -/
theorem start_decides {front rest : List ℚ} {s : Bool} (hsplit : zs = front ++ rest)
    (hfront : front.length = 5) (hwithin : ∀ x ∈ front, Within lo hi s x)
    (hlong : 13 ≤ rest.length) {n : ℕ} (hlow : 16 ≤ n) (hhigh : n ≤ 18) :
    1 ≤ polarity s * weigh coeffs (before 0 36 zs n) := by
  have hweight : 5 / 16 ≤ weigh coeffs (List.replicate (36 - n) 0 ++
      (List.replicate 5 (5 : ℚ) ++ List.replicate 13 (-9)).take n) := by
    obtain rfl | rfl | rfl : n = 16 ∨ n = 17 ∨ n = 18 := by omega
    all_goals decide +kernel
  have hwindow : before 0 36 zs n = List.replicate (36 - n) 0 ++ zs.take n := by
    rw [before, List.drop_append_of_le_length (by rw [List.length_replicate]; omega),
      List.drop_replicate, List.take_append, List.length_replicate,
      List.take_of_length_le (by rw [List.length_replicate]; omega)]
    congr 2
    omega
  have hzeros : List.Forall₂ (fun m x => m * (lo / 5) ≤ polarity s * x)
      (List.replicate (36 - n) 0) (List.replicate (36 - n) 0) :=
    List.forall₂_same.mpr fun x hx => by
      rw [List.eq_of_mem_replicate hx, zero_mul, mul_zero]
  have hfirst : List.Forall₂ (fun m x => m * (lo / 5) ≤ polarity s * x)
      (List.replicate front.length 5) front :=
    forall₂_replicate fun x hx => known_le (hwithin x hx)
  have hrest : List.Forall₂ (fun m x => m * (lo / 5) ≤ polarity s * x)
      (List.replicate (rest.take 13).length (-9)) (rest.take 13) :=
    forall₂_replicate fun x hx => unknown_le heye (hzs x (by
      rw [hsplit]
      exact List.mem_append_right _ (List.mem_of_mem_take hx)))
  rw [hfront] at hfirst
  rw [List.length_take_of_le hlong] at hrest
  -- the five samples of the first symbol are known, what follows them counts at its worst
  have hthirteen : zs.take n = (front ++ rest.take 13).take n := by
    rw [hsplit, List.take_append, List.take_append, List.take_take, hfront]
    congr 2
    omega
  rw [hwindow, hthirteen]
  exact sum_decides (one_le_level heye hweight) (List.rel_append hzeros (List.forall₂_take n
    (List.rel_append hfirst hrest)))

end Eye

end Gnuais
