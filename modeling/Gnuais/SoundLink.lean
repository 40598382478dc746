import Gnuais.Jitter
import Gnuais.Waveform

/-!
# From the sound to the frames

A channel of the sound input has five samples of each symbol, positive or negative, with
noise on them. `sound_link` follows them through the filter, the clock and the deframer of a
new receiver: every frame is received.

* `Sounds` — the samples of some symbols, between two amplitudes.
* `Heard` — the samples of some frames.
* `Rounds` — what is asked of the arithmetic of `float`.
* `signs_signal` — the filter gives each symbol its five signs, but for late edges.
-/

namespace Gnuais

open Buffer Bits Hdlc Window

/-! ## The sound of some symbols

Nothing is asked of the shape of the samples within a symbol, only that they are loud
enough and not too loud. -/

/-- Samples of some symbols, five of each. -/
def Sounds (lo hi : ℚ) (ss : List Bool) (zs : List ℚ) : Prop :=
  List.Forall₂ (Within lo hi) (ss.flatMap (List.replicate 5)) zs

section Sounds

variable {lo hi : ℚ} {ss : List Bool} {zs : List ℚ} (h : Sounds lo hi ss zs)

include h

/-- Five samples a symbol. -/
theorem Sounds.length_eq : zs.length = 5 * ss.length := by
  rw [← List.Forall₂.length_eq h, List.length_flatMap]
  simp [mul_comm]

/-- The samples of a symbol. -/
theorem Sounds.sample {k j : ℕ} {s : Bool} (hs : ss[k]? = some s) (hj : j < 5) :
    ∃ x, zs[5 * k + j]? = some x ∧ Within lo hi s x := by
  have hlen := h.length_eq
  obtain ⟨hk, -⟩ := List.getElem?_eq_some_iff.mp hs
  have hlt : 5 * k + j < zs.length := by omega
  have hsymbol : (ss.flatMap (List.replicate 5))[5 * k + j]? = some s := by
    rw [getElem?_flatMap_blocks (fun _ => List.length_replicate) (by omega), Nat.mul_add_div (by omega),
      Nat.div_eq_of_lt hj, Nat.add_zero, hs, Nat.mul_add_mod, Nat.mod_eq_of_lt hj, Option.bind_some,
      List.getElem?_replicate, if_pos hj]
  obtain ⟨hlt', hget⟩ := List.getElem?_eq_some_iff.mp hsymbol
  refine ⟨zs[5 * k + j], List.getElem?_eq_getElem hlt, ?_⟩
  rw [← hget]
  exact (List.forall₂_iff_get.mp h).2 _ hlt' hlt

/-- No sample is larger than the amplitude that is allowed. -/
theorem Sounds.bounded (hlo : 0 < lo) : ∀ x ∈ zs, |x| ≤ hi := by
  intro x hx
  obtain ⟨i, hi', rfl⟩ := List.mem_iff_getElem.mp hx
  have hlen := List.Forall₂.length_eq h
  exact ((List.forall₂_iff_get.mp h).2 i (by omega) hi').bounded hlo

end Sounds

/-! ## The output of the filter

The window is 36 samples long and weighs two in its middle most. So the sign of the output
is that of the symbol 18 samples ago, except next to an edge, where the two may be of
different symbols. -/

/-- A sample as a number. -/
def sampleValue (x : Int16) : ℚ := x.toInt

/-- The signs of a filter's output: right where the exact sum is not too small. Between
minus one and one the sign may be any, which is why the first signs of a signal are not
known. -/
structure SignsOf (xs : List Int16) (signs : List Bool) : Prop where
  /-- a sign for each sample -/
  length_eq : signs.length = xs.length
  /-- the first output is that of a window of zeros -/
  silence : ∀ b ∈ signs.head?, b = false
  /-- where the exact sum is one at least, rounding does not change its sign -/
  sign : ∀ n < signs.length, ∀ s,
    1 ≤ polarity s * weigh coeffs (before 0 36 (xs.map sampleValue) n) → signs[n]? = some s

/-- Blocks of five signs each that are jittered. -/
theorem jittered_blocks {sign : ℕ → Bool} (ss : List Bool) : ∀ (a : ℕ) (s₀ : Bool),
    (∀ k s s', (s₀ :: ss)[k]? = some s → ss[k]? = some s' →
      (sign (a + 5 * k) = s ∨ sign (a + 5 * k) = s') ∧
        ∀ j, 1 ≤ j → j ≤ 4 → sign (a + 5 * k + j) = s') →
    Jittered s₀ ss ((List.range' a (5 * ss.length)).map sign) := by
  induction ss with
  | nil => exact fun _ _ _ => .nil
  | cons s ss ih =>
    intro a s₀ h
    obtain ⟨hfirst, hothers⟩ := h 0 s₀ s rfl rfl
    have hrest := ih (a + 5) s fun k t t' ht ht' => by
      have hk := h (k + 1) t t' ht ht'
      rwa [Nat.mul_succ, ← Nat.add_assoc, Nat.add_right_comm] at hk
    have hsplit : (List.range' a (5 * (s :: ss).length)).map sign =
        sign a :: [sign (a + 1), sign (a + 2), sign (a + 3), sign (a + 4)] ++
          (List.range' (a + 5) (5 * ss.length)).map sign := by
      rw [List.length_cons, Nat.mul_succ, Nat.add_comm (5 * ss.length), ← List.range'_append_1,
        List.map_append]
      rfl
    have hfour : [sign (a + 1), sign (a + 2), sign (a + 3), sign (a + 4)] = List.replicate 4 s := by
      rw [hothers 1 (by omega) (by omega), hothers 2 (by omega) (by omega),
        hothers 3 (by omega) (by omega), hothers 4 (by omega) (by omega)]
      rfl
    rw [hsplit, hfour]
    exact .cons hfirst hrest

/-- Equal signs in a row. -/
theorem drop_take_eq_replicate {signs : List Bool} {a n : ℕ} {s : Bool}
    (h : ∀ i < n, signs[a + i]? = some s) : (signs.drop a).take n = List.replicate n s := by
  refine List.ext_getElem? fun i => ?_
  by_cases hi : i < n
  · rw [List.getElem?_take_of_lt hi, List.getElem?_drop, List.getElem?_replicate, if_pos hi]
    exact h i hi
  · rw [List.getElem?_eq_none (by rw [List.length_take]; omega),
      List.getElem?_eq_none (by rw [List.length_replicate]; omega)]

/-- The signs from one on, by their places. -/
theorem drop_eq_map_range' {signs : List Bool} {a n : ℕ} (h : signs.length = a + n) :
    signs.drop a = (List.range' a n).map fun i => (signs[i]?).getD false := by
  refine List.ext_getElem (by rw [List.length_drop, List.length_map, List.length_range']; omega)
    fun i hi _ => ?_
  rw [List.length_drop] at hi
  rw [List.getElem_drop, List.getElem_map, List.getElem_range', Nat.one_mul,
    List.getElem?_eq_getElem (by omega), Option.getD_some]

section Signal

variable {lo hi : ℚ} (heye : OpenEye lo hi) {ss : List Bool} {xs flush : List Int16}
  (h : Sounds lo hi (true :: ss) (xs.map sampleValue)) (hflush : flush.length = 18)
  (hquiet : ∀ x ∈ flush, |sampleValue x| ≤ hi) {signs : List Bool}
  (hsigns : SignsOf (xs ++ flush) signs)

include h hflush

/-- The number of samples, with the silence behind them. -/
theorem length_signal : (xs ++ flush).length = 5 * ss.length + 23 := by
  have hsounds := h.length_eq
  rw [List.length_map, List.length_cons, Nat.mul_succ] at hsounds
  rw [List.length_append, hsounds, hflush]

omit hflush in
/-- A sample of the signal, by its symbol. -/
theorem sample_signal {k j : ℕ} {s : Bool} (hs : (true :: ss)[k]? = some s) (hj : j < 5) :
    ∃ z, ((xs ++ flush).map sampleValue)[5 * k + j]? = some z ∧ Within lo hi s z := by
  obtain ⟨z, hz, hwithin⟩ := h.sample hs hj
  obtain ⟨hlt, -⟩ := List.getElem?_eq_some_iff.mp hz
  exact ⟨z, by rw [List.map_append, List.getElem?_append_left hlt, hz], hwithin⟩

include heye

omit hflush in
include hquiet in
/-- No sample is larger than the amplitude that is allowed. -/
theorem signal_bounded : ∀ z ∈ (xs ++ flush).map sampleValue, |z| ≤ hi := by
  have hpos : 0 < lo := by linarith [heye.loud]
  intro z hz
  rw [List.map_append] at hz
  rcases List.mem_append.mp hz with hz | hz
  · exact h.bounded hpos z hz
  · obtain ⟨x, hx, rfl⟩ := List.mem_map.mp hz
    exact hquiet x hx

include hquiet hsigns

/-- Where the samples in the middle of the window are of one symbol, or of two that are the
same, the sign is the symbol. -/
theorem signs_between {k k' j j' n : ℕ} {s : Bool} (hs : (true :: ss)[k]? = some s) (hj : j < 5)
    (hs' : (true :: ss)[k']? = some s) (hj' : j' < 5) (hn : 5 * k + j + 19 = n)
    (hn' : 5 * k' + j' + 18 = n) : signs[n]? = some s := by
  have hlen := length_signal h hflush
  have hlen' : ((xs ++ flush).map sampleValue).length = 5 * ss.length + 23 := by
    rw [List.length_map, hlen]
  obtain ⟨hk, -⟩ := List.getElem?_eq_some_iff.mp hs'
  rw [List.length_cons] at hk
  obtain ⟨x, hx, hxs⟩ := sample_signal h hs hj
  obtain ⟨y, hy, hys⟩ := sample_signal h hs' hj'
  have hxn : n - 19 = 5 * k + j := by omega
  have hyn : n - 18 = 5 * k' + j' := by omega
  exact hsigns.sign n (by rw [hsigns.length_eq, hlen]; omega) s
    (middle_decides heye (signal_bounded heye h hquiet) (by omega) (by omega)
      (by rw [hxn, hx]) hxs (by rw [hyn, hy]) hys)

/-- Four signs of each symbol. -/
theorem signs_middle {k j : ℕ} {s : Bool} (hs : (true :: ss)[k]? = some s) (hj : j < 4) :
    signs[5 * k + j + 19]? = some s :=
  signs_between heye h hflush hquiet hsigns hs (Nat.lt_succ_of_lt hj) hs (Nat.succ_lt_succ hj) rfl rfl

/-- The first symbol has three more signs. -/
theorem signs_first {n : ℕ} (hlow : 16 ≤ n) (hhigh : n ≤ 22) : signs[n]? = some true := by
  have hlen := length_signal h hflush
  by_cases hn : n ≤ 18
  · have hlong := h.length_eq
    rw [List.length_cons] at hlong
    have hsplit : (xs ++ flush).map sampleValue =
        (xs.map sampleValue).take 5 ++ ((xs.map sampleValue).drop 5 ++ flush.map sampleValue) := by
      rw [List.map_append, ← List.append_assoc, List.take_append_drop]
    refine hsigns.sign n (by rw [hsigns.length_eq, hlen]; omega) true (start_decides heye
      (signal_bounded heye h hquiet) hsplit (List.length_take_of_le (by omega)) (fun z hz => ?_)
      (by rw [List.length_append, List.length_map, hflush]; omega) hlow hn)
    obtain ⟨j, hj, rfl⟩ := List.mem_iff_getElem.mp hz
    obtain ⟨y, hy, hwithin⟩ := h.sample (show (true :: ss)[0]? = some true from rfl)
      (show j < 5 by rw [List.length_take] at hj; omega)
    rw [Nat.mul_zero, Nat.zero_add] at hy
    obtain ⟨hlt, rfl⟩ := List.getElem?_eq_some_iff.mp hy
    rwa [List.getElem_take]
  · have hsign := signs_middle heye h hflush hquiet hsigns
      (show (true :: ss)[0]? = some true from rfl) (show n - 19 < 4 by omega)
    have hidx : 5 * 0 + (n - 19) + 19 = n := by omega
    rwa [hidx] at hsign

/-- Behind them each symbol has its five signs, but for late edges. -/
theorem signs_symbol {k : ℕ} {s s' : Bool} (hs : (true :: ss)[k]? = some s)
    (hs' : ss[k]? = some s') :
    ((signs[23 + 5 * k]?).getD false = s ∨ (signs[23 + 5 * k]?).getD false = s') ∧
      ∀ j, 1 ≤ j → j ≤ 4 → (signs[23 + 5 * k + j]?).getD false = s' := by
  have hs'' : (true :: ss)[k + 1]? = some s' := by rwa [List.getElem?_cons_succ]
  constructor
  · by_cases hsame : s = s'
    · subst hsame
      have hsign := signs_between heye h hflush hquiet hsigns hs (show 4 < 5 by decide) hs''
        (show 0 < 5 by decide) (show 5 * k + 4 + 19 = 23 + 5 * k by omega) (by omega)
      exact .inl (by rw [hsign, Option.getD_some])
    · generalize (signs[23 + 5 * k]?).getD false = b
      cases b <;> cases s <;> cases s' <;>
        first | exact .inl rfl | exact .inr rfl | exact absurd rfl hsame
  · intro j hlow hhigh
    have hsign := signs_middle heye h hflush hquiet hsigns hs'' (show j - 1 < 4 by omega)
    have hidx : 5 * (k + 1) + (j - 1) + 19 = 23 + 5 * k + j := by omega
    rw [hidx] at hsign
    rw [hsign, Option.getD_some]

/-- What the filter makes of a signal that begins with a positive symbol: 16 signs while it
comes in, seven more of the first symbol, and then each symbol has its five signs. -/
theorem signs_signal : ∃ start samples, signs = false :: start ++ List.replicate 7 true ++ samples ∧
    start.length = 15 ∧ Jittered true ss samples := by
  have hlen : signs.length = 23 + 5 * ss.length := by
    rw [hsigns.length_eq, length_signal h hflush, Nat.add_comm]
  have hparts : signs = signs.take 16 ++ (signs.drop 16).take 7 ++ signs.drop 23 := by
    rw [List.append_assoc, ← List.drop_drop (i := 7) (j := 16), List.take_append_drop,
      List.take_append_drop]
  have hseven : (signs.drop 16).take 7 = List.replicate 7 true :=
    drop_take_eq_replicate fun i hi =>
      signs_first heye h hflush hquiet hsigns (Nat.le_add_right 16 i) (by omega)
  have hstart : signs.take 16 = false :: (signs.take 16).drop 1 := by
    obtain ⟨b, rest, rfl⟩ : ∃ b rest, signs = b :: rest :=
      List.exists_cons_of_length_pos (by omega)
    obtain rfl := hsigns.silence b rfl
    rfl
  refine ⟨(signs.take 16).drop 1, signs.drop 23, ?_, ?_, ?_⟩
  · rw [← hstart, ← hseven]
    exact hparts
  · rw [List.length_drop, List.length_take]
    omega
  · rw [drop_eq_map_range' hlen]
    exact jittered_blocks ss 23 true fun k s s' hs hs' =>
      signs_symbol heye h hflush hquiet hsigns hs hs'

end Signal

/-! ## The receiver

While the first samples come in, the signs are those of a sum that is still small, so
nothing is known of them. The receiver slices some bits from them, and then comes into
phase with the first symbol. -/

section Receiver

variable (cfg : Config) (clock : ℕ → ℤ) (mem : Allocated) (serial ipc : Bool) (name : UInt8)

/-- While the first samples come in, a new receiver slices three bits, whatever the signs are,
and its clock is early in its phase. -/
theorem receiverLoop_noise {start : List Bool} (hstart : start.length = 15) :
    ∃ (c : Clock) (bits : List Bool), bits.length = 3 ∧ c.pllinc.toNat = 13107 ∧
      819 ≤ c.pll.toNat ∧ c.pll.toNat ≤ 25389 ∧
      ∀ d, receiverLoop cfg clock (false :: start) (Clock.receiver ⟨false, 0, 0x10000 / 5, false⟩ d) =
        (protodecDecode cfg clock bits d).map fun r => (c.receiver r.1, bits, r.2) := by
  have hsteady : Clock.Steady ⟨false, 0, 0x10000 / 5, false⟩ := ⟨by decide, rfl⟩
  have hnext : Clock.Steady ⟨false, 13107, 0x10000 / 5, false⟩ := ⟨by decide, rfl⟩
  have hrun : Clock.run (false :: start) ⟨false, 0, 0x10000 / 5, false⟩ =
      Clock.run start ⟨false, 13107, 0x10000 / 5, false⟩ := rfl
  have hfirst : (13107 : UInt32).toNat = 13107 := rfl
  have hloop := fun d => hsteady.receiverLoop_eq cfg clock (false :: start) d
  obtain ⟨hlow, hhigh⟩ := Clock.Steady.run_spec start hnext
  have hlast := hnext.run start
  have hphase := hlast.phase
  simp only [hrun] at hloop
  simp only [hfirst, hstart] at hlow hhigh
  exact ⟨_, _, by omega, by rw [hlast.pllinc]; rfl, by omega, by omega, hloop⟩

/-- The first symbol pulls the clock at most once. -/
theorem Clock.pulled_early {c : Clock} (hinc : c.pllinc.toNat = 13107) (hlow : 819 ≤ c.pll.toNat)
    (hhigh : c.pll.toNat ≤ 25389) (out : Bool) :
    ∃ q, 819 ≤ q ∧ q ≤ 26208 ∧ ∀ d, Receiver.pulled (c.receiver d) out = q := by
  refine ⟨if out ≠ c.prev then c.pll.toNat + 819 else c.pll.toNat, by split <;> omega,
    by split <;> omega, fun d => ?_⟩
  have hkick : (c.receiver d).pllinc / inc = 819 := by
    change c.pllinc.toNat / 16 = 819
    rw [hinc]
  have hfront : (c.receiver d).pll < 0x10000 / 2 := by
    change c.pll.toNat < 32768
    omega
  rw [Receiver.pulled, hkick, if_pos hfront]
  rfl

/-- While the first symbol comes in, a new receiver slices four bits, whatever the signs in
front of it are, and its clock is in phase with the symbols. -/
theorem receiverLoop_start {start : List Bool} (hstart : start.length = 15) :
    ∃ bits pll, bits.length = 4 ∧ 818 ≤ pll ∧ pll ≤ 52428 ∧
      receiverLoop cfg clock (false :: start ++ List.replicate 7 true)
        (initReceiver mem serial ipc name) =
      (protodecDecode cfg clock bits (protodecInitialize mem serial ipc name)).map fun r =>
        (⟨true, pll, 0x10000 / 5, true, r.1⟩, bits, r.2) := by
  obtain ⟨c, bits, hthree, hinc, hlow, hhigh, hloop⟩ := receiverLoop_noise cfg clock hstart
  obtain ⟨q, hlowq, hhighq, hpulled⟩ := Clock.pulled_early hinc hlow hhigh true
  refine ⟨bits ++ [true == c.lastbit], q - 1 + 2 * 13107, ?_, by omega, by omega, ?_⟩
  · rw [List.length_append, hthree]
    rfl
  have hsplit : List.replicate 7 true = List.replicate 5 true ++ List.replicate 2 true := rfl
  have hinit : initReceiver mem serial ipc name =
      Clock.receiver ⟨false, 0, 0x10000 / 5, false⟩ (protodecInitialize mem serial ipc name) := rfl
  rw [hinit, receiverLoop_append, hloop, protodecDecode_append]
  cases protodecDecode cfg clock bits (protodecInitialize mem serial ipc name) with
  | none => rfl
  | some r =>
    have hq' := hpulled r.1
    have hsymbol := @receiverLoop_symbol cfg clock true (c.receiver r.1) hinc (by rw [hq']; omega)
      (by rw [hq']; omega)
    have hbit : (c.receiver r.1).lastbit = c.lastbit := rfl
    have hdecoder : (c.receiver r.1).decoder = r.1 := rfl
    rw [hq', hbit, hdecoder] at hsymbol
    rw [Option.map_some, Option.bind_some, Option.bind_some, hsplit, receiverLoop_append, hsymbol]
    cases protodecDecode cfg clock [true == c.lastbit] r.1 with
    | none => rfl
    | some r' =>
      have hquiet := receiverLoop_quiet cfg clock 2
        { c.receiver r.1 with decoder := r'.1, lastbit := true, prev := true, pll := q - 1 } rfl
        (by change q - 1 + 2 * c.pllinc.toNat ≤ 0xffff; rw [hinc]; omega)
      have hpllinc : (c.receiver r.1).pllinc = 13107 := hinc
      simp only [Option.map_some, Option.bind_some, hquiet]
      rw [hpllinc, List.append_nil, List.append_nil]

/-- The decoder's bits: four while the first symbol comes in, and one of each symbol behind
it. -/
theorem receiverLoop_signs {bits start samples : List Bool} (hstart : start.length = 15)
    (h : Sparse bits) (hsamples : Jittered true (nrzi true bits) samples) :
    ∃ (rx : Receiver) (front : List Bool), front.length = 4 ∧
      receiverLoop cfg clock (false :: start ++ List.replicate 7 true ++ samples)
        (initReceiver mem serial ipc name) =
      (protodecDecode cfg clock (front ++ bits) (protodecInitialize mem serial ipc name)).map
        fun r => ({ rx with decoder := r.1 }, front ++ bits, r.2) := by
  obtain ⟨front, pll, hfront, hlow, hhigh, hloop⟩ :=
    receiverLoop_start cfg clock mem serial ipc name hstart
  obtain ⟨rx, hrx⟩ : ∃ rx : Receiver,
      receiverLoop cfg clock (false :: start ++ List.replicate 7 true ++ samples)
        (initReceiver mem serial ipc name) =
      (protodecDecode cfg clock (front ++ bits) (protodecInitialize mem serial ipc name)).map
        fun r => ({ rx with decoder := r.1 }, front ++ bits, r.2) := by
    rw [receiverLoop_append, hloop, protodecDecode_append]
    cases protodecDecode cfg clock front (protodecInitialize mem serial ipc name) with
    | none => exact ⟨initReceiver mem serial ipc name, rfl⟩
    | some r =>
      obtain ⟨rx, hrest⟩ := receiverLoop_jittered cfg clock bits
        ⟨true, pll, 0x10000 / 5, true, r.1⟩ true 0 samples ⟨rfl, rfl, rfl, hlow, hhigh⟩ h hsamples
      refine ⟨rx, ?_⟩
      rw [Option.map_some, Option.bind_some, Option.bind_some, hrest]
      cases protodecDecode cfg clock bits r.1 with
      | none => rfl
      | some r' => rfl
  exact ⟨rx, front, hfront, hrx⟩

/-- The deframer takes any four bits and two zeros for nothing. -/
theorem closings_start {front : List Bool} (hfront : front.length = 4) (bits : List Bool) :
    Deframer.start.closings (front ++ false :: false :: bits) = Deframer.start.closings bits := by
  obtain ⟨b₀, b₁, b₂, b₃, rfl⟩ := List.length_eq_four.mp hfront
  cases b₀ <;> cases b₁ <;> cases b₂ <;> cases b₃ <;> rfl

end Receiver

/-! ## The filter in the receiver

Here the sum in `float` takes the place of the exact one. All that is asked of `float` is
in `Rounds`. -/

/-- The samples of a channel. -/
def channel {numCh : ℕ} (chOfs : ℕ) (hch : chOfs < numCh) (frames : List (Vector Int16 numCh)) :
    List Int16 :=
  frames.map fun frame => frame[chOfs]

/-- What is asked of the arithmetic of `float` with the coefficients in it: a sum of
samples has its right sign if it is one at least, and silence is not positive. Sums
between minus one and one may be rounded to either sign, apart from the one of silence. -/
structure Rounds {α : Type} [Zero α] [Add α] [Mul α] (ofShort : Int16 → α) (positive : α → Bool)
    (taps : List α) : Prop where
  /-- silence is zero -/
  zero : ofShort 0 = 0
  /-- there are as many coefficients as in the source -/
  length_taps : taps.length = coeffsL
  /-- a sum of one or more does not lose its sign -/
  sign : ∀ (w : List Int16) (out : α), w.length = coeffsL →
    filterMac (w.map ofShort) taps coeffsL = some out →
    ∀ s, 1 ≤ polarity s * weigh coeffs (w.map sampleValue) → positive out = s
  /-- and that of silence is not positive -/
  silence : ∀ out, filterMac (List.replicate coeffsL 0) taps coeffsL = some out →
    positive out = false

/-- A window of converted samples. -/
theorem before_map {β : Type} (g : Int16 → β) (xs : List Int16) (n : ℕ) :
    before (g 0) coeffsL (xs.map g) n = (before 0 coeffsL xs n).map g := by
  rw [before, before, ← List.map_replicate, ← List.map_append, ← List.map_drop, ← List.map_take]

section Filtering

variable {α : Type} [Zero α] [Add α] [Mul α] {ofShort : Int16 → α} {positive : α → Bool}
  {taps : List α} (hrounds : Rounds ofShort positive taps) (cfg : Config) (clock : ℕ → ℤ)

include hrounds

/-- The receiver looks at signs that are right. -/
theorem soundRuns_signs {numCh chOfs : ℕ} (hch : chOfs < numCh)
    {chunks : List (List (Vector Int16 numCh))} (hlen : ∀ c ∈ chunks, c.length ≤ filteredLen) :
    ∃ f f' signs, filterInit coeffsL taps = some f ∧
      SignsOf (channel chOfs hch chunks.flatten) signs ∧
      ∀ rx, soundRuns ofShort positive cfg clock chOfs chunks f rx =
        (receiverLoop cfg clock signs rx).map fun r => (f', r) := by
  obtain ⟨f, hinit, hlength, htaps, hholds⟩ :=
    filterInit_holds hrounds.length_taps.ge (show coeffsL ≤ bufferLen / 2 by decide)
  obtain ⟨f', filtered, hfilters, houts⟩ := hholds.receiverFilters ofShort hch hlen
  have htake : taps.take coeffsL = taps := List.take_of_length_le hrounds.length_taps.le
  rw [hlength, htaps, htake, outputs_eq] at houts
  generalize hxs : channel chOfs hch chunks.flatten = xs
  have hstream : (chunks.flatten.map fun frame => ofShort frame[chOfs]) = xs.map ofShort := by
    rw [← hxs, channel, List.map_map]
    rfl
  -- the zeros of the filter's buffer are silence in front of the first sample
  rw [hstream, List.length_map, ← hrounds.zero] at houts
  have hlen' : filtered.length = xs.length := by
    have hlengths := congrArg List.length houts
    rwa [List.length_map, List.length_map, List.length_range] at hlengths
  have hout : ∀ n (hn : n < filtered.length),
      filterMac ((before 0 coeffsL xs n).map ofShort) taps coeffsL = some filtered[n] := by
    intro n hn
    have hget := congrArg (fun l => l[n]?) houts
    simp only [List.getElem?_map, List.getElem?_range (show n < xs.length by omega),
      List.getElem?_eq_getElem hn, Option.map_some] at hget
    rw [← before_map]
    exact (Option.some.inj hget).symm
  refine ⟨f, f', filtered.map positive, hinit, ?_, fun rx => soundRuns_eq _ _ cfg clock hfilters rx⟩
  refine ⟨by rw [List.length_map, hlen'], fun b hb => ?_, fun n hn s hsum => ?_⟩
  · -- before any sound the sign is that of silence
    cases filtered with
    | nil => cases hb
    | cons out filtered =>
      obtain rfl := Option.some.inj hb
      refine hrounds.silence out ?_
      have hfirst := hout 0 (Nat.succ_pos _)
      rwa [before_zero, List.map_replicate, hrounds.zero] at hfirst
  · rw [List.length_map] at hn
    -- from then on the sign is that of the exact sum, where this is clear of the rounding
    have hlength := length_before (0 : Int16) coeffsL (show n ≤ xs.length by omega)
    have hzero : sampleValue 0 = 0 := by decide +kernel
    have hwindow := before_map sampleValue xs n
    rw [hzero] at hwindow
    rw [hwindow] at hsum
    rw [List.getElem?_map, List.getElem?_eq_getElem hn, Option.map_some,
      hrounds.sign _ _ hlength (hout n hn) s hsum]

/-- The samples of some frames, the first of them with three zeros in front. The smallest
sample is 5/9 of the largest at least; 18 samples behind them, which may be anything as
large, bring the last symbol through the filter. -/
def Heard (samples : List Int16) (frames : List SentFrame) : Prop :=
  ∃ lo hi xs flush, OpenEye lo hi ∧ samples = xs ++ flush ∧ (∃ f ∈ frames.head?, 3 ≤ f.gap) ∧
    Sounds lo hi (nrzi false (frames.flatMap SentFrame.bits)) (xs.map sampleValue) ∧
    flush.length = 18 ∧ ∀ x ∈ flush, |sampleValue x| ≤ hi

variable (mem : Allocated) (serial ipc : Bool) (name : UInt8)

/-- The receiver's decoder closes the frames of its channel and no others. -/
theorem soundRuns_frames {numCh chOfs : ℕ} (hch : chOfs < numCh) {frames : List SentFrame}
    {chunks : List (List (Vector Int16 numCh))} (hlen : ∀ c ∈ chunks, c.length ≤ filteredLen)
    (hheard : Heard (channel chOfs hch chunks.flatten) frames) :
    ∃ f f' rx bits calls, filterInit coeffsL taps = some f ∧
      soundRuns ofShort positive cfg clock chOfs chunks f (initReceiver mem serial ipc name) =
        some (f', rx, bits, calls) ∧
      closeAll cfg clock (frames.map fun f => .frame f.collected)
        (protodecInitialize mem serial ipc name).tally = some (rx.decoder.tally, calls) := by
  obtain ⟨lo, hi, xs, flush, heye, hchannel, ⟨f₀, hhead, hgap⟩, hsound, hflush, hquiet⟩ := hheard
  obtain ⟨frames, rfl⟩ : ∃ rest, frames = f₀ :: rest := by
    cases frames with
    | nil => cases hhead
    | cons g rest => exact ⟨rest, by rw [Option.some.inj hhead]⟩
  obtain ⟨n, hn⟩ : ∃ n, f₀.gap = n + 3 := ⟨f₀.gap - 3, by omega⟩
  -- the first zero is the positive symbol, and two more follow it
  have hbits : (f₀ :: frames).flatMap SentFrame.bits =
      false :: false :: false :: ({ f₀ with gap := n } :: frames).flatMap SentFrame.bits := by
    simp only [List.flatMap_cons, SentFrame.bits, hn, List.replicate_succ, List.cons_append,
      SentFrame.image]
  have hcollected : (f₀ :: frames).map (fun f => Closing.frame f.collected) =
      ({ f₀ with gap := n } :: frames).map fun f => Closing.frame f.collected := rfl
  have hall := (run_allSent ({ f₀ with gap := n } :: frames)).2
  generalize ({ f₀ with gap := n } :: frames).flatMap SentFrame.bits = rest at hbits hall
  have hsparse : Sparse (false :: false :: rest) := by
    have hframes := sparse_frames (f₀ :: frames)
    rw [hbits] at hframes
    exact sparse_tail hframes
  obtain ⟨f, f', signs, hinit, hsigns, hruns⟩ := soundRuns_signs hrounds cfg clock hch hlen
  rw [hchannel] at hsigns
  rw [hbits] at hsound
  obtain ⟨start, samples, rfl, hstart, hjittered⟩ := signs_signal heye hsound hflush hquiet hsigns
  obtain ⟨rx, front, hfront, hloop⟩ :=
    receiverLoop_signs cfg clock mem serial ipc name hstart hsparse hjittered
  obtain ⟨d, calls, hrun, -, hclose⟩ := decode_simulates cfg clock
    (front ++ false :: false :: rest) (simulates_initial mem serial ipc name)
  rw [closings_start hfront, hall, ← hcollected] at hclose
  rw [hrun] at hloop
  refine ⟨f, f', { rx with decoder := d }, front ++ false :: false :: rest, calls, hinit, ?_, hclose⟩
  rw [hruns, hloop]
  rfl

/-- Whatever the sound of its channel is, a receiver does not get out of its arrays. -/
theorem soundRuns_total {numCh chOfs : ℕ} (hch : chOfs < numCh)
    {chunks : List (List (Vector Int16 numCh))} (hlen : ∀ c ∈ chunks, c.length ≤ filteredLen) :
    ∃ f r, filterInit coeffsL taps = some f ∧
      soundRuns ofShort positive cfg clock chOfs chunks f (initReceiver mem serial ipc name) =
        some r := by
  obtain ⟨f, f', signs, hinit, -, hruns⟩ := soundRuns_signs hrounds cfg clock hch hlen
  have hsteady : Clock.Steady ⟨false, 0, 0x10000 / 5, false⟩ := ⟨by decide, rfl⟩
  have hstart : initReceiver mem serial ipc name =
      Clock.receiver ⟨false, 0, 0x10000 / 5, false⟩ (protodecInitialize mem serial ipc name) := rfl
  obtain ⟨d, calls, hrun, -, -⟩ := decode_simulates cfg clock
    (Clock.run signs ⟨false, 0, 0x10000 / 5, false⟩).2 (simulates_initial mem serial ipc name)
  have hloop := hsteady.receiverLoop_eq cfg clock signs (protodecInitialize mem serial ipc name)
  rw [hrun, Option.map_some, ← hstart] at hloop
  exact ⟨f, _, hinit, (hruns _).trans (congrArg (Option.map _) hloop)⟩

/-- The frames in the sound of a channel are received, each once, in order, bit for bit,
whatever is on the other channels and however the sound is cut into buffers; nothing else
is counted. The filter's sums are rounded, and only their signs matter; `Rounds` is what
they must not get wrong. -/
theorem sound_link {numCh chOfs : ℕ} (hch : chOfs < numCh) {frames : List SentFrame}
    {chunks : List (List (Vector Int16 numCh))} (hlen : ∀ c ∈ chunks, c.length ≤ filteredLen)
    (hheard : Heard (channel chOfs hch chunks.flatten) frames) :
    ∃ f f' rx bits calls, filterInit coeffsL taps = some f ∧
      soundRuns ofShort positive cfg clock chOfs chunks f (initReceiver mem serial ipc name) =
        some (f', rx, bits, calls) ∧
      rx.decoder.receivedframes = frames.length ∧ rx.decoder.lostframes = 0 ∧
      rx.decoder.lostframes2 = 0 ∧
      (getdataCalls calls).map (fun c => (c.1, c.2.toList.take c.1)) =
        frames.map fun f => (8 * f.octets.length, (f.octets.flatMap octetBE).map byte) := by
  obtain ⟨f, f', rx, bits, calls, hinit, hruns, hclose⟩ :=
    soundRuns_frames hrounds cfg clock mem serial ipc name hch hlen hheard
  exact ⟨f, f', rx, bits, calls, hinit, hruns, closeAll_frames hclose⟩

end Filtering

/-! ## A short sound

The hypotheses can be met: exact arithmetic is one way to round, and the sound of any
frames at two levels is heard. -/

/-- Exact arithmetic does not round at all. -/
theorem rounds_exact : Rounds sampleValue (fun out => decide (0 < out)) coeffs where
  zero := by decide +kernel
  length_taps := length_coeffs
  sign := by
    intro w out hw hout s hsum
    have hlength : (w.map sampleValue).length = coeffsL := by rw [List.length_map, hw]
    rw [filterMac_weigh hlength length_coeffs] at hout
    rw [Option.some.inj hout] at hsum
    cases s with
    | true =>
      rw [polarity, if_pos rfl, one_mul] at hsum
      exact decide_eq_true (by linarith)
    | false =>
      rw [polarity, if_neg Bool.false_ne_true] at hsum
      exact decide_eq_false (by linarith)
  silence := by
    intro out hout
    rw [filterMac_weigh List.length_replicate length_coeffs] at hout
    rw [← Option.some.inj hout]
    decide +kernel

/-- The sound of any frames, with a level for each of the two symbols. -/
theorem heard_levels {lo hi : ℚ} (heye : OpenEye lo hi) {frames : List SentFrame}
    (hlead : ∃ f ∈ frames.head?, 3 ≤ f.gap) {level : Bool → Int16}
    (hlevel : ∀ s, Within lo hi s (sampleValue (level s))) {x : Int16} (hx : |sampleValue x| ≤ hi) :
    Heard ((signal (frames.flatMap SentFrame.bits)).map level ++ List.replicate 18 x) frames := by
  refine ⟨lo, hi, _, _, heye, rfl, hlead, ?_, List.length_replicate, fun y hy => ?_⟩
  · rw [List.map_map]
    exact List.forall₂_map_right_iff.mpr (List.forall₂_same.mpr fun s _ => hlevel s)
  · rwa [List.eq_of_mem_replicate hy]

/-- A frame of one octet behind three zeros. -/
def soundFrame : SentFrame := { shortFrame with gap := 3 }

/-- Another one, with the other phase of the training sequence. -/
def otherFrame : SentFrame := ⟨3, true, [0x33], by decide, by decide⟩

/-- Their sounds, the first on the first of two channels, the other on the second. -/
def shortSound : List (Vector Int16 2) :=
  List.zipWith (fun s s' => #v[if s then 1000 else -800, if s' then 300 else -300])
      (signal ([soundFrame].flatMap SentFrame.bits)) (signal ([otherFrame].flatMap SentFrame.bits)) ++
    List.replicate 18 #v[-999, 0]

/-- The buffers are not too long. -/
theorem shortSound_fits : ∀ c ∈ [shortSound.take 100, shortSound.drop 100],
    c.length ≤ filteredLen := by decide +kernel

/-- The buffers put together are the whole sound. -/
theorem shortSound_cut : [shortSound.take 100, shortSound.drop 100].flatten = shortSound := by
  rw [List.flatten_cons, List.flatten_singleton, List.take_append_drop]

theorem heard_first :
    Heard (channel 0 (by decide) [shortSound.take 100, shortSound.drop 100].flatten) [soundFrame] := by
  have heye : OpenEye 800 1000 := ⟨by norm_num, by norm_num⟩
  have hchannel : channel 0 (by decide) shortSound =
      (signal ([soundFrame].flatMap SentFrame.bits)).map (fun s => if s then 1000 else -800) ++
        List.replicate 18 (-999) := by decide +kernel
  rw [shortSound_cut, hchannel]
  exact heard_levels heye ⟨_, rfl, Nat.le_refl 3⟩
    (fun s => by cases s <;> constructor <;> decide +kernel) (by decide +kernel)

theorem heard_second :
    Heard (channel 1 (by decide) [shortSound.take 100, shortSound.drop 100].flatten) [otherFrame] := by
  have heye : OpenEye 300 300 := ⟨by norm_num, by norm_num⟩
  have hchannel : channel 1 (by decide) shortSound =
      (signal ([otherFrame].flatMap SentFrame.bits)).map (fun s => if s then 300 else -300) ++
        List.replicate 18 0 := by decide +kernel
  rw [shortSound_cut, hchannel]
  exact heard_levels heye ⟨_, rfl, Nat.le_refl 3⟩
    (fun s => by cases s <;> constructor <;> decide +kernel) (by decide +kernel)

/-- It is received in two buffers. -/
theorem sound_link_short :
    ∃ f f' rx bits calls, filterInit coeffsL coeffs = some f ∧
      soundRuns sampleValue (fun out => decide (0 < out)) .silent (fun _ => 0) 0
        [shortSound.take 100, shortSound.drop 100] f (initReceiver .zeroed false false 65) =
        some (f', rx, bits, calls) ∧
      rx.decoder.receivedframes = 1 ∧ rx.decoder.lostframes = 0 ∧ rx.decoder.lostframes2 = 0 ∧
      (getdataCalls calls).map (fun c => (c.1, c.2.toList.take c.1)) =
        [soundFrame].map fun f => (8 * f.octets.length, (f.octets.flatMap octetBE).map byte) :=
  sound_link rounds_exact .silent (fun _ => 0) .zeroed false false 65 (by decide : 0 < 2)
    shortSound_fits heard_first

end Gnuais
