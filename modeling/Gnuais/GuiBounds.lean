import Gnuais.GuiLoops
import Gnuais.Lib.Numeral

/-!
# The arrays of the map window

When the thread stays inside `nmeabuffer`, `aisline` and `r_buffer`. None of its
loops looks at the size of an array, so what one read may bring depends on what
the reads before it left: `ReadFits` is the condition on a read and the state in
front of it. `threadenRead_isSome_iff` says that it is exact for one pass, and
`gui_accesses_iff` says it of any sequence of reads.
-/

namespace Gnuais

open Buffer

/-! ## What a read brings

The condition is about the places that the pass will look at: first the header, which may
reach behind the characters of the read into what earlier reads left, and then the
letters. -/

/-- The array from the first `!` of the read on. -/
def headerAfter (nmeabuffer : NmeaBuffer) (bytes : List UInt8) : List UInt8 :=
  (afterRead nmeabuffer bytes).toList.drop (bytes.idxOf 33)

/-- The read has `!A` in it, and its first `!` is this one. -/
structure Begins (nmeabuffer : NmeaBuffer) (bytes : List UInt8) : Prop where
  /-- there is a `!`, and something behind it -/
  bang : bytes.idxOf 33 + 1 < bytes.length
  /-- the character behind it is an `A` -/
  talker : (headerAfter nmeabuffer bytes)[1]? = some 65

/-- The thread takes what stands behind the first `!` for a sentence. -/
structure IsSentence (nmeabuffer : NmeaBuffer) (bytes : List UInt8) : Prop where
  /-- it starts as a sentence does -/
  begins : Begins nmeabuffer bytes
  /-- and has an `M` where `AIVDM` has its last letter -/
  kind : (headerAfter nmeabuffer bytes)[5]? = some 77

/-- The letters kept from the sentences before, and those of this one. -/
def lineAfter (st : GuiState) (bytes : List UInt8) : List UInt8 :=
  let header := headerAfter st.nmeabuffer bytes
  st.aisline.toList.take (lettersBefore (headerDigit header 9) st.lettersread) ++
    payloadRead header (bytes.length - bytes.idxOf 33)

/-- The letters fit in `aisline`, and after the last sentence of a message their
terminator does too, and the bits fit in `r_buffer`. The limits are those of three arrays,
and the last is the smallest: a hundred letters. -/
structure LineFits (line : List UInt8) (last : Prop) : Prop where
  /-- the copy stays inside `aisline` -/
  collected : line.length ≤ 500
  /-- there is room for the zero behind the letters -/
  terminated : last → line.length < 500
  /-- a hundred letters are 600 bits, as many as `r_buffer` has -/
  decoded : last → ((line.takeWhile (· ≠ 0)).takeWhile (· ≠ 44)).length ≤ 100

/-- What the thread does with a read stays inside its arrays. The order of the fields is
that of the pass. A field that is only asked of a sentence has the test for one in front. -/
structure ReadFits (st : GuiState) (bytes : List UInt8) : Prop where
  /-- one less than the array has, since `nmeabuffer[r] = 0` comes behind the characters -/
  terminated : bytes.length ≤ 255
  /-- the test looks five places behind the `!` -/
  tested : Begins st.nmeabuffer bytes → 6 ≤ (headerAfter st.nmeabuffer bytes).length
  /-- the digits and the commas of a sentence -/
  header : IsSentence st.nmeabuffer bytes → HeaderFits (headerAfter st.nmeabuffer bytes)
  /-- and its letters, unless it is skipped -/
  line : IsSentence st.nmeabuffer bytes →
    ¬ Skipped (headerDigit (headerAfter st.nmeabuffer bytes) 9) st.previoussentence →
    LineFits (lineAfter st bytes) (headerDigit (headerAfter st.nmeabuffer bytes) 7 ≤
      headerDigit (headerAfter st.nmeabuffer bytes) 9)

/-! ## One pass

Every step of the pass has its own condition. They are put together in the order in which
the loop body does its work, so that a step that is not reached asks for nothing. -/

/-- A read that fills the array leaves no room for the terminator. -/
theorem threadenRead_long {bytes : List UInt8} (h : 255 < bytes.length) (st : GuiState) :
    threadenRead bytes st = none := by
  rw [threadenRead]
  cases storeAt st.nmeabuffer 0 bytes with
  | none => rfl
  | some nmeabuffer =>
    simp only [Option.bind_eq_bind, Option.bind_some, wr_eq_none nmeabuffer 0 h, Option.bind_none]

/-- The end of a pass stays inside the arrays if the letters fit. -/
theorem finishSentence_isSome_iff {sentences sentencenumb : ℤ} {st : GuiState}
    {line : List UInt8} (hlen : st.lettersread = line.length) (hline : HoldsAt st.aisline 0 line) :
    (finishSentence sentences sentencenumb st).isSome ↔
      (sentences ≤ sentencenumb → line.length < 500) ∧
        (sentences ≤ sentencenumb →
          ((line.takeWhile (· ≠ 0)).takeWhile (· ≠ 44)).length ≤ 100) := by
  rw [finishSentence]
  simp only [Option.bind_eq_bind]
  by_cases hlast : sentences ≤ sentencenumb
  · rw [if_pos hlast, hlen]
    simp only [hlast, forall_const]
    by_cases hroom : line.length < 500
    · have hterminated := hline.splice [0] (by rw [List.length_singleton]; omega)
      rw [Nat.zero_add] at hterminated
      rw [wr_eq _ _ hroom, Option.bind_some, isSome_bind_of_total]
      · exact (aisdecode_isSome_iff hterminated st.rBuffer st.shipd).trans
          (and_iff_right hroom).symm
      · intro decoded
        rw [Option.bind_some]
        split <;> rfl
    · rw [wr_eq_none _ _ (Nat.not_lt.mp hroom), Option.bind_none]
      exact ⟨fun h => absurd h (by decide), fun h => absurd h.1 hroom⟩
  · rw [if_neg hlast, Option.bind_some]
    refine ⟨fun _ => ⟨fun h => absurd h hlast, fun h => absurd h hlast⟩, fun _ => ?_⟩
    split <;> rfl

/-- The letters in front of a payload and the payload itself, after the copy. -/
theorem holdsAt_line {aisline : AisLine} {lettersread : ℕ} {payload : List UInt8}
    (hfit : lettersread + payload.length ≤ 500) :
    HoldsAt (splice aisline lettersread payload) 0
      (aisline.toList.take lettersread ++ payload) := by
  have hlen : (aisline.toList.take lettersread).length = lettersread := by
    rw [List.length_take, Vector.length_toList]
    omega
  have hbefore : HoldsAt aisline 0 (aisline.toList.take lettersread) := by
    intro i hi
    rw [hlen] at hi
    rw [Nat.zero_add, List.getElem?_take_of_lt hi, Vector.getElem?_toList]
  have hline := hbefore.splice payload (by omega)
  rwa [hlen, Nat.zero_add] at hline

/-- The letters of a sentence that is not skipped must fit. -/
theorem takePayload_isSome_iff {sentences sentencenumb : ℤ} {payload : List UInt8}
    {st : GuiState} (hletters : st.lettersread ≤ 500) :
    (takePayload sentences sentencenumb payload st).isSome ↔
      (¬ Skipped sentencenumb st.previoussentence →
        LineFits (st.aisline.toList.take (lettersBefore sentencenumb st.lettersread) ++ payload)
          (sentences ≤ sentencenumb)) := by
  have hbefore := lettersBefore_le sentencenumb hletters
  rw [takePayload]
  generalize lettersBefore sentencenumb st.lettersread = before at hbefore ⊢
  have hlen : (st.aisline.toList.take before ++ payload).length = before + payload.length := by
    rw [List.length_append, List.length_take, Vector.length_toList, Nat.min_eq_left hbefore]
  by_cases hskip : Skipped sentencenumb st.previoussentence
  · rw [if_pos hskip]
    exact ⟨fun _ h => absurd hskip h, fun _ => rfl⟩
  · rw [if_neg hskip]
    by_cases hroom : before + payload.length ≤ 500
    · rw [if_pos hroom, finishSentence_isSome_iff hlen.symm (holdsAt_line hroom)]
      rw [← hlen] at hroom
      exact ⟨fun h _ => ⟨hroom, h.1, h.2⟩, fun h => ⟨(h hskip).terminated, (h hskip).decoded⟩⟩
    · rw [if_neg hroom]
      refine ⟨fun h => absurd h (by decide), fun h => absurd (h hskip).collected ?_⟩
      rwa [hlen]

/-- A sentence is taken without leaving the arrays if its header lies in
`nmeabuffer` and, unless it is skipped, its letters fit. -/
theorem takeSentence_isSome_iff {m r : ℕ} (st : GuiState) {header : List UInt8}
    (hheader : st.nmeabuffer.toList.drop m = header) (hr : r ≤ 255)
    (hletters : st.lettersread ≤ 500) :
    (takeSentence m r st).isSome ↔
      HeaderFits header ∧ (¬ Skipped (headerDigit header 9) st.previoussentence →
        LineFits (st.aisline.toList.take (lettersBefore (headerDigit header 9) st.lettersread) ++
          payloadRead header (r - m)) (headerDigit header 7 ≤ headerDigit header 9)) := by
  by_cases hfits : HeaderFits header
  · rw [takeSentence_eq hheader hr hfits (lettersBefore_le _ hletters),
      takePayload_isSome_iff hletters]
    exact (and_iff_right hfits).symm
  · rw [takeSentence_none hheader hfits]
    exact ⟨fun h => absurd h (by decide), fun h => absurd h.1 hfits⟩

/-- A read that begins no sentence, or is not one, is only stored. -/
theorem ReadFits.of_not_begins {st : GuiState} {bytes : List UInt8} (hfit : bytes.length ≤ 255)
    (h : ¬ Begins st.nmeabuffer bytes) : ReadFits st bytes where
  terminated := hfit
  tested hbegins := absurd hbegins h
  header hsentence := absurd hsentence.begins h
  line hsentence := absurd hsentence.begins h

/-- One pass stays inside the arrays exactly when the read fits. -/
theorem threadenRead_isSome_iff {bytes : List UInt8} (hne : bytes ≠ []) {st : GuiState}
    (hletters : st.lettersread ≤ 500) :
    (threadenRead bytes st).isSome ↔ ReadFits st bytes := by
  by_cases hfit : bytes.length ≤ 255
  swap
  · rw [threadenRead_long (Nat.not_le.mp hfit)]
    exact ⟨fun h => absurd h (by decide), fun h => absurd h.terminated hfit⟩
  rw [threadenRead_eq hne hfit]
  dsimp only
  -- one case for each place where the pass may end, in its order
  by_cases hlate : bytes.length ≤ bytes.idxOf 33 + 1
  · have hnone : ¬ Begins st.nmeabuffer bytes := fun h => absurd h.bang (Nat.not_lt.mpr hlate)
    rw [if_pos hlate]
    exact ⟨fun _ => .of_not_begins hfit hnone, fun _ => rfl⟩
  rw [if_neg hlate]
  have hbang : (headerAfter st.nmeabuffer bytes)[0]? = some 33 := by
    have hmem : bytes.idxOf 33 < bytes.length := by omega
    rw [headerAfter, List.getElem?_drop, Nat.add_zero, toList_afterRead _ hfit,
      List.getElem?_append_left hmem, List.getElem?_eq_getElem hmem, List.getElem_idxOf]
  have hlen : (headerAfter st.nmeabuffer bytes).length = 256 - bytes.idxOf 33 :=
    length_drop_toList _ _
  have hlong : 1 < (headerAfter st.nmeabuffer bytes).length := by omega
  rw [startsSentence_eq rfl hbang hlong, ← headerAfter]
  by_cases htalker : (headerAfter st.nmeabuffer bytes)[1]? = some 65
  swap
  · rw [if_neg htalker]
    exact ⟨fun _ => .of_not_begins hfit fun h => htalker h.talker, fun _ => rfl⟩
  have hbegins : Begins st.nmeabuffer bytes := ⟨Nat.not_le.mp hlate, htalker⟩
  rw [if_pos htalker]
  cases hkind : (headerAfter st.nmeabuffer bytes)[5]? with
  -- the array ends in front of the letter that is tested
  | none =>
    have hshort := List.getElem?_eq_none_iff.mp hkind
    rw [Option.map_none, Option.bind_none]
    exact ⟨fun h => absurd h (by decide),
      fun h => absurd (h.tested hbegins) (Nat.not_le.mpr (Nat.lt_succ_of_le hshort))⟩
  | some c =>
    have htested := (List.getElem?_eq_some_iff.mp hkind).1
    rw [Option.map_some, Option.bind_some]
    by_cases hc : c = 77
    · rw [hc] at hkind
      rw [hc, if_pos (by decide)]
      refine (takeSentence_isSome_iff { st with nmeabuffer := afterRead st.nmeabuffer bytes } rfl
        hfit hletters).trans ?_
      exact ⟨fun h => ⟨hfit, fun _ => htested, fun _ => h.1, fun _ => h.2⟩,
        fun h => ⟨h.header ⟨hbegins, hkind⟩, h.line ⟨hbegins, hkind⟩⟩⟩
    · have hother : ¬ IsSentence st.nmeabuffer bytes := by
        intro h
        have hsame := h.kind
        rw [hkind] at hsame
        exact hc (Option.some.inj hsame)
      rw [if_neg (by simpa using hc)]
      exact ⟨fun _ => ⟨hfit, fun _ => htested, fun h => absurd h hother,
        fun h => absurd h hother⟩, fun _ => rfl⟩

/-! ## Any sequence of reads

The only thing one read leaves to the next that matters here is `lettersread`, which never
grows beyond the size of `aisline`. -/

/-- The end of a pass keeps the number of letters. -/
theorem finishSentence_lettersread {sentences sentencenumb : ℤ} {st st' : GuiState}
    {calls : List GuiCall} (h : finishSentence sentences sentencenumb st = some (st', calls)) :
    st'.lettersread = st.lettersread := by
  rw [finishSentence] at h
  simp only [Option.bind_eq_bind] at h
  by_cases hlast : sentencenumb ≥ sentences
  · rw [if_pos hlast] at h
    obtain ⟨aisline, -, h⟩ := Option.bind_eq_some_iff.mp h
    obtain ⟨decoded, -, h⟩ := Option.bind_eq_some_iff.mp h
    rw [Option.bind_some] at h
    split at h <;> obtain ⟨rfl, -⟩ := Prod.mk.inj (Option.some.inj h) <;> rfl
  · rw [if_neg hlast, Option.bind_some] at h
    split at h <;> obtain ⟨rfl, -⟩ := Prod.mk.inj (Option.some.inj h) <;> rfl

/-- A sentence leaves at most as many letters as `aisline` has room for. -/
theorem takeSentence_lettersread {m r : ℕ} (hr : r ≤ 255) {st st' : GuiState}
    {calls : List GuiCall} (h : takeSentence m r st = some (st', calls))
    (hletters : st.lettersread ≤ 500) : st'.lettersread ≤ 500 := by
  by_cases hfits : HeaderFits (st.nmeabuffer.toList.drop m)
  · rw [takeSentence_eq rfl hr hfits (lettersBefore_le _ hletters), takePayload] at h
    split at h
    · obtain ⟨rfl, -⟩ := Prod.mk.inj (Option.some.inj h)
      exact hletters
    · split at h
      · rename_i hroom
        rw [finishSentence_lettersread h]
        exact hroom
      · cases h
  · rw [takeSentence_none rfl hfits] at h
    cases h

/-- So does a whole pass. -/
theorem threadenRead_lettersread {bytes : List UInt8} (hne : bytes ≠ []) {st st' : GuiState}
    {calls : List GuiCall} (h : threadenRead bytes st = some (st', calls))
    (hletters : st.lettersread ≤ 500) : st'.lettersread ≤ 500 := by
  have hfits := (threadenRead_isSome_iff hne hletters).mp (by rw [h]; rfl)
  rw [threadenRead_eq hne hfits.terminated] at h
  dsimp only at h
  by_cases hlate : bytes.length ≤ bytes.idxOf 33 + 1
  · rw [if_pos hlate] at h
    obtain ⟨rfl, -⟩ := Prod.mk.inj (Option.some.inj h)
    exact hletters
  · rw [if_neg hlate] at h
    obtain ⟨starts, -, h⟩ := Option.bind_eq_some_iff.mp h
    cases starts with
    | true => exact takeSentence_lettersread hfits.terminated h hletters
    | false =>
      obtain ⟨rfl, -⟩ := Prod.mk.inj (Option.some.inj h)
      exact hletters

/-- A run stays inside the arrays exactly when each read fits the state the reads
before it left. -/
theorem threaden_isSome_iff {reads : List (List UInt8)} (hne : ∀ bytes ∈ reads, bytes ≠ [])
    {st : GuiState} (hletters : st.lettersread ≤ 500) :
    (threaden (reads.map some) st).isSome ↔
      ∀ before bytes after st' calls, reads = before ++ bytes :: after →
        threaden (before.map some) st = some (st', calls) → ReadFits st' bytes := by
  induction reads generalizing st with
  | nil =>
    refine ⟨fun _ before bytes after _ _ hsplit => ?_, fun _ => rfl⟩
    exact absurd hsplit.symm (List.append_ne_nil_of_right_ne_nil _ (List.cons_ne_nil _ _))
  | cons text reads ih =>
    have htext := hne text (List.mem_cons_self ..)
    have hrest : ∀ bytes ∈ reads, bytes ≠ [] := fun bytes h => hne bytes (List.mem_cons_of_mem _ h)
    have hstep := threadenRead_isSome_iff htext hletters
    rw [List.map_cons, threaden_cons htext]
    constructor
    · intro hrun before bytes after st' calls hsplit hbefore
      cases hread : threadenRead text st with
      | none =>
        rw [hread, Option.bind_none] at hrun
        exact absurd hrun (by decide)
      | some next =>
        have hnext := threadenRead_lettersread htext hread hletters
        rw [hread, Option.bind_some, isSome_bind_of_total fun _ => rfl, ih hrest hnext] at hrun
        cases before with
        | nil =>
          obtain ⟨rfl, -⟩ := List.cons_eq_cons.mp hsplit
          obtain ⟨rfl, -⟩ := Prod.mk.inj (Option.some.inj hbefore)
          exact hstep.mp (by rw [hread]; rfl)
        | cons first before =>
          obtain ⟨rfl, hafter⟩ := List.cons_eq_cons.mp hsplit
          rw [List.map_cons, threaden_cons htext, hread, Option.bind_some,
            Option.bind_eq_some_iff] at hbefore
          obtain ⟨⟨st₁, calls₁⟩, hbefore, heq⟩ := hbefore
          obtain ⟨rfl, -⟩ := Prod.mk.inj (Option.some.inj heq)
          exact hrun before bytes after _ _ hafter hbefore
    · intro hall
      have hfits := hall [] text reads st [] rfl rfl
      obtain ⟨next, hread⟩ := Option.isSome_iff_exists.mp (hstep.mpr hfits)
      have hnext := threadenRead_lettersread htext hread hletters
      rw [hread, Option.bind_some, isSome_bind_of_total fun _ => rfl, ih hrest hnext]
      intro before bytes after st' calls hsplit hbefore
      refine hall (text :: before) bytes after st' (next.2 :: calls) (by rw [hsplit]; rfl) ?_
      rw [List.map_cons, threaden_cons htext, hread, Option.bind_some, hbefore]
      rfl

/-- From the start of the loop, for whatever the arrays hold there: no access of a run is
outside its array exactly when each read fits the state the reads before it left. Whether
a read fits depends on the letters that were collected before it, and on what stands
behind its characters. -/
theorem gui_accesses_iff (nmeabuffer : NmeaBuffer) (aisline : AisLine) (shipd : ShipData)
    {reads : List (List UInt8)}
    (hreads : ∀ bytes ∈ reads, 1 ≤ bytes.length ∧ bytes.length ≤ 256) :
    (threaden (reads.map some) (.initial nmeabuffer aisline shipd)).isSome ↔
      ∀ before bytes after st calls, reads = before ++ bytes :: after →
        threaden (before.map some) (.initial nmeabuffer aisline shipd) = some (st, calls) →
        ReadFits st bytes := by
  have hne : ∀ bytes ∈ reads, bytes ≠ [] := fun bytes hmem =>
    List.length_pos_iff.mp (hreads bytes hmem).1
  exact threaden_isSome_iff hne (Nat.zero_le 500)

/-- A position report as a sentence. -/
def reportSentence : List UInt8 := ascii "!AIVDM,1,1,,A,13u?etPv2;0n:dDPwUM1U1Cb069D,0*23\r\n"

/-- The same, for the sentence in one read and again in two. -/
theorem gui_accesses_iff_sentence :
    (threaden ([reportSentence, reportSentence.take 20, reportSentence.drop 20].map some)
      (.initial (.replicate 256 0) (.replicate 500 0)
        ⟨0, 0, .lit 0, .lit 0, .lit 0, .lit 0, .lit 0⟩)).isSome ↔
    ∀ before bytes after st calls,
      [reportSentence, reportSentence.take 20, reportSentence.drop 20] =
        before ++ bytes :: after →
      threaden (before.map some) (.initial (.replicate 256 0) (.replicate 500 0)
        ⟨0, 0, .lit 0, .lit 0, .lit 0, .lit 0, .lit 0⟩) = some (st, calls) →
      ReadFits st bytes :=
  gui_accesses_iff _ _ _ (by decide)

/-- A read of 256 characters, the most `read` is asked for. -/
theorem full_read_overruns :
    ¬ ∀ (nmeabuffer : NmeaBuffer) (aisline : AisLine) (shipd : ShipData)
        (reads : List (List UInt8)),
        (∀ bytes ∈ reads, 1 ≤ bytes.length ∧ bytes.length ≤ 256) →
        (threaden (reads.map some) (.initial nmeabuffer aisline shipd)).isSome := by
  intro hclaim
  have hrun := hclaim (.replicate 256 0) (.replicate 500 0)
    ⟨0, 0, .lit 0, .lit 0, .lit 0, .lit 0, .lit 0⟩ [List.replicate 256 65] (by
      intro bytes hmem
      rw [List.mem_singleton.mp hmem, List.length_replicate]
      decide)
  have hlong : 255 < (List.replicate 256 (65 : UInt8)).length := by
    rw [List.length_replicate]
    decide
  rw [List.map_singleton, threaden_cons (List.length_pos_iff.mp (Nat.zero_lt_of_lt hlong)),
    threadenRead_long hlong, Option.bind_none] at hrun
  exact absurd hrun (by decide)

end Gnuais
