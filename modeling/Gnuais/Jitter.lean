import Gnuais.ClockRecovery
import Gnuais.RadioLink

/-!
# Late edges

Noise moves the edges of a signal. Here the first sample of a symbol may still be one of
the symbol before it. The clock of a receiver stays in phase all the same, and the bits are
the ones that were sent (`receiverLoop_jittered`).
-/

namespace Gnuais

/-- Samples of some symbols behind the symbol `s₀`: five of each, but the first may be one
of the symbol before. -/
inductive Jittered : Bool → List Bool → List Bool → Prop
  | nil {s₀ : Bool} : Jittered s₀ [] []
  | cons {s₀ s first : Bool} {ss samples : List Bool} (hfirst : first = s₀ ∨ first = s)
      (hrest : Jittered s ss samples) :
      Jittered s₀ (s :: ss) (first :: List.replicate 4 s ++ samples)

/-- The phase before a symbol, `n` symbols after an edge. -/
structure Locked (rx : Receiver) (s : Bool) (n : ℕ) : Prop where
  /-- the last sample was of the symbol before -/
  prev : rx.prev = s
  /-- and so was the last bit -/
  lastbit : rx.lastbit = s
  /-- five samples a turn, rounded down -/
  pllinc : rx.pllinc = 0x10000 / 5
  /-- it has lost one for each symbol since the edge -/
  low : 818 ≤ rx.pll + n
  /-- the first sample, which may still be one of the symbol before, slices no bit -/
  high : rx.pll ≤ 52428

section Jitter

variable (cfg : Config) (clock : ℕ → ℤ)

/-- An edge that is one sample late is like one in time in another phase. -/
theorem receiverLoop_late {s : Bool} {rx : Receiver} (hinc : rx.pllinc = 0x10000 / 5)
    (hprev : rx.prev = !s) (hhigh : rx.pll ≤ 52428) :
    receiverLoop cfg clock ((!s) :: List.replicate 4 s) rx =
      receiverLoop cfg clock (List.replicate 5 s)
        { rx with
          pll := if rx.pll + 13107 < 0x10000 / 2 then rx.pll + 819 else rx.pll - 819
          prev := s } := by
  have hinc' : rx.pllinc = 13107 := hinc
  have hkick : rx.pllinc / inc = 819 := hinc.symm ▸ rfl
  have hfirst := receiverLoop_quiet cfg clock 1 rx hprev (by rw [hinc']; omega)
  have hnext := receiverLoop_quiet cfg clock 1
    { rx with
      pll := if rx.pll + 13107 < 0x10000 / 2 then rx.pll + 819 else rx.pll - 819
      prev := s } rfl (by rw [hinc']; dsimp only; split <;> omega)
  have hpulled : Receiver.pulled { rx with pll := rx.pll + 1 * rx.pllinc } s =
      (if rx.pll + 13107 < 0x10000 / 2 then rx.pll + 819 else rx.pll - 819) + 1 * rx.pllinc := by
    have hedge : s ≠ rx.prev := by rw [hprev]; cases s <;> decide
    rw [Receiver.pulled, if_pos hedge, hkick, hinc', Nat.one_mul]
    dsimp only
    split <;> omega
  have hsplit : (!s) :: List.replicate 4 s = List.replicate 1 (!s) ++ List.replicate 4 s := rfl
  have hsplit' : List.replicate 5 s = List.replicate 1 s ++ List.replicate 4 s := rfl
  rw [hsplit, hsplit', receiverLoop_append, receiverLoop_append, hfirst, hnext, Option.bind_some,
    Option.bind_some, List.replicate_succ, receiverLoop, receiverLoop, receiverSample_pulled, hpulled]

/-- One symbol gives its bit, and the clock stays in phase. -/
theorem Locked.symbol {rx : Receiver} {s₀ s first : Bool} {n : ℕ} (h : Locked rx s₀ n) (hn : n ≤ 6)
    (hfirst : first = s₀ ∨ first = s) :
    ∃ pll, receiverLoop cfg clock (first :: List.replicate 4 s) rx =
        (protodecDecode cfg clock [s == s₀] rx.decoder).map (fun r =>
          ({ rx with decoder := r.1, lastbit := s, prev := s, pll := pll }, [s == s₀], r.2)) ∧
      818 ≤ pll + (if s = s₀ then n + 1 else 0) ∧ pll ≤ 52428 := by
  obtain ⟨hprev, hlast, hinc, hlow, hhigh⟩ := h
  have hkick : rx.pllinc / inc = 819 := hinc.symm ▸ rfl
  by_cases hs : first = s
  · subst hs
    have hpulled : 1 ≤ rx.pulled first ∧ rx.pulled first ≤ 0xffff ∧
        818 ≤ rx.pulled first - 1 + (if first = s₀ then n + 1 else 0) ∧
        rx.pulled first - 1 ≤ 52428 := by
      rw [Receiver.pulled, hprev, hkick]
      by_cases hsame : first = s₀
      · rw [if_neg (not_not.mpr hsame), if_pos hsame]
        omega
      · rw [if_pos hsame, if_neg hsame]
        split <;> omega
    refine ⟨rx.pulled first - 1, ?_, hpulled.2.2⟩
    rw [← hlast]
    exact receiverLoop_symbol cfg clock hinc hpulled.1 hpulled.2.1
  · obtain rfl : first = s₀ := hfirst.resolve_right hs
    obtain rfl : first = !s := by cases first <;> cases s <;> first | rfl | exact absurd rfl hs
    have hne : s ≠ !s := by cases s <;> decide
    rw [receiverLoop_late cfg clock hinc hprev hhigh, if_neg hne, ← hlast]
    generalize hq : (if rx.pll + 13107 < 0x10000 / 2 then rx.pll + 819 else rx.pll - 819) = q
    have hbounds : 819 ≤ q ∧ q ≤ 52428 := by
      rw [← hq]
      split <;> omega
    have hpulled : Receiver.pulled { rx with pll := q, prev := s } s = q := if_neg fun h => h rfl
    have hloop := @receiverLoop_symbol cfg clock s { rx with pll := q, prev := s } hinc
      (by rw [hpulled]; omega) (by rw [hpulled]; omega)
    rw [hpulled] at hloop
    exact ⟨q - 1, hloop, by omega, by omega⟩

/-- Each symbol gives its bit, whichever of the edges are late. The induction is on the
bits, from any phase that is locked. -/
theorem receiverLoop_jittered (bits : List Bool) :
    ∀ (rx : Receiver) (s₀ : Bool) (n : ℕ) (samples : List Bool), Locked rx s₀ n →
      Sparse (List.replicate n true ++ bits) → Jittered s₀ (nrzi s₀ bits) samples →
      ∃ rx' : Receiver, receiverLoop cfg clock samples rx =
        (protodecDecode cfg clock bits rx.decoder).map fun r =>
          ({ rx' with decoder := r.1 }, bits, r.2) := by
  induction bits with
  | nil =>
    intro rx s₀ n samples _ _ h
    cases h
    exact ⟨rx, rfl⟩
  | cons b bits ih =>
    intro rx s₀ n samples hlocked hsparse h
    rw [nrzi] at h
    cases h with
    | cons hfirst hrest =>
      -- seven ones in a row do not occur, so the drift without a transition stays bounded
      have hn : n ≤ 6 := by
        by_contra hlt
        refine hsparse (List.IsPrefix.isInfix ?_)
        rw [show n = 7 + (n - 7) by omega, ← List.replicate_append_replicate, List.append_assoc]
        exact List.prefix_append _ _
      -- NRZI and back
      have hbit : ((b == s₀) == s₀) = b := by cases b <;> cases s₀ <;> rfl
      have hsparse' :
          Sparse (List.replicate (if (b == s₀) = s₀ then n + 1 else 0) true ++ bits) := by
        cases b with
        | true =>
          rw [if_pos (by cases s₀ <;> rfl), List.replicate_succ', List.append_assoc]
          exact hsparse
        | false =>
          rw [if_neg (by cases s₀ <;> decide)]
          exact fun hsub => hsparse ((hsub.trans (List.suffix_cons false bits).isInfix).trans
            (List.suffix_append _ _).isInfix)
      obtain ⟨pll, hloop, hlow, hhigh⟩ := hlocked.symbol cfg clock hn hfirst
      have hsplit : b :: bits = [b] ++ bits := rfl
      rw [receiverLoop_append, hloop, hbit, hsplit, protodecDecode_append]
      cases protodecDecode cfg clock [b] rx.decoder with
      | none => exact ⟨rx, rfl⟩
      | some r =>
        obtain ⟨rx', hrx'⟩ := ih
          { rx with decoder := r.1, lastbit := b == s₀, prev := b == s₀, pll := pll } (b == s₀) _ _
          ⟨rfl, rfl, hlocked.pllinc, hlow, hhigh⟩ hsparse' hrest
        refine ⟨rx', ?_⟩
        simp only [Option.map_some, Option.bind_some, hrx']
        cases protodecDecode cfg clock bits r.1 with
        | none => rfl
        | some r' => rfl

end Jitter

end Gnuais
