import Gnuais.GuiBounds
import Gnuais.Transport

/-!
# How the stream is cut into reads

The socket is a stream, so a read may bring a part of a sentence, or the end of
one and the start of the next. The thread looks at each read by itself: it takes
the sentence at the first `!`, as far as this read brings it.

* `Cut` — reads in which every sentence is whole up to the end of its payload.
* `Cut.threaden_eq` — such reads are taken as the sentences one by one are: the
  runs differ in what they leave in `nmeabuffer` only.
* `cut_of_wholeIn` — `Cut` from where each sentence lies in the stream.
-/

namespace Gnuais

open Buffer

/-! ## Cuts

A read takes one sentence at most. So it must not bring two starts of sentences, and the
one it brings must have its payload with it. What comes behind the payload may be cut
anywhere. -/

/-- The reads that bring what is left of a sentence, and then some sentences, with each
payload in the read its sentence starts in. It is a relation and no function: the same
sentences can be cut in many ways. -/
inductive Cut : List UInt8 → List Sentence → List (List UInt8) → Prop
  /-- nothing is left -/
  | done : Cut [] [] []
  /-- more of the sentence that is left over -/
  | rest {read tail : List UInt8} {sentences : List Sentence} {reads : List (List UInt8)}
      (hread : 33 ∉ read) (h : Cut tail sentences reads) :
      Cut (read ++ tail) sentences (read :: reads)
  /-- all of it, and the next sentence up to the end of its payload -/
  | sentence {tail front tail' : List UInt8} {s : Sentence} {sentences : List Sentence}
      {reads : List (List UInt8)} (htail : 33 ∉ tail) (htext : s.text = front ++ tail')
      (hlong : 14 + s.payload.length ≤ front.length) (h : Cut tail' sentences reads) :
      Cut tail (s :: sentences) ((tail ++ front) :: reads)

/-! ## The array is not remembered

Two runs with different arrays go on alike, as long as what they read from the array was
stored by the read itself. -/

/-- The end of a pass does not look at the array. -/
theorem finishSentence_nmeabuffer (sentences sentencenumb : ℤ) (st : GuiState)
    (nmeabuffer : NmeaBuffer) :
    finishSentence sentences sentencenumb { st with nmeabuffer } =
      (finishSentence sentences sentencenumb st).map fun r => ({ r.1 with nmeabuffer }, r.2) := by
  rw [finishSentence, finishSentence]
  simp only [Option.bind_eq_bind]
  split
  · cases wr st.aisline st.lettersread 0 with
    | none => rfl
    | some aisline =>
      rw [Option.bind_some, Option.bind_some]
      cases aisdecode aisline st.rBuffer st.shipd with
      | none => rfl
      | some decoded =>
        simp only [Option.bind_some]
        split <;> rfl
  · simp only [Option.bind_some]
    split <;> rfl

/-- Nor does what comes after the header and the payload were read. -/
theorem takePayload_nmeabuffer (sentences sentencenumb : ℤ) (payload : List UInt8)
    (st : GuiState) (nmeabuffer : NmeaBuffer) :
    takePayload sentences sentencenumb payload { st with nmeabuffer } =
      (takePayload sentences sentencenumb payload st).map fun r =>
        ({ r.1 with nmeabuffer }, r.2) := by
  rw [takePayload, takePayload]
  dsimp only
  split
  · rfl
  · split
    · exact finishSentence_nmeabuffer _ _ { st with
        aisline := splice st.aisline (lettersBefore sentencenumb st.lettersread) payload
        lettersread := lettersBefore sentencenumb st.lettersread + payload.length } nmeabuffer
    · rfl

/-! ## Cut reads are taken as whole sentences are

The induction is on the cut. A read that brings the start of no sentence makes no call,
and any other one makes the calls of the sentence that starts in it. -/

/-- A read without the start of a sentence is only stored. -/
theorem threadenRead_rest {read : List UInt8} (hne : read ≠ []) (hfit : read.length ≤ 255)
    (hread : 33 ∉ read) (st : GuiState) :
    threadenRead read st = some ({ st with nmeabuffer := afterRead st.nmeabuffer read }, []) := by
  rw [threadenRead_eq hne hfit, List.idxOf_eq_length hread]
  exact if_pos (Nat.le_succ _)

/-- Reads cut this way make the calls the sentences one by one make. -/
theorem Cut.threaden_eq {tail : List UInt8} {sentences : List Sentence}
    {reads : List (List UInt8)} (h : Cut tail sentences reads)
    (hwell : ∀ s ∈ sentences, s.WellFormed)
    (hreads : ∀ read ∈ reads, 1 ≤ read.length ∧ read.length ≤ 255) {st st' : GuiState}
    {calls : List (List GuiCall)} (hletters : st.lettersread ≤ 500)
    (hrun : threaden ((sentences.map Sentence.text).map some) st = some (st', calls))
    (nmeabuffer : NmeaBuffer) :
    ∃ nmeabuffer' calls', threaden (reads.map some) { st with nmeabuffer } =
        some ({ st' with nmeabuffer := nmeabuffer' }, calls') ∧
      calls'.flatten = calls.flatten := by
  induction h generalizing st st' calls nmeabuffer with
  | done =>
    obtain ⟨rfl, rfl⟩ := Prod.mk.inj (Option.some.inj hrun)
    exact ⟨nmeabuffer, [], rfl, rfl⟩
  | @rest read tail sentences reads hread h ih =>
    obtain ⟨hpos, hfit⟩ := hreads read (List.mem_cons_self ..)
    have hne : read ≠ [] := List.length_pos_iff.mp hpos
    -- a read without a `!` makes no call
    obtain ⟨nmeabuffer', calls', hrest, hcalls⟩ := ih hwell
      (fun r hr => hreads r (List.mem_cons_of_mem _ hr)) hletters hrun (afterRead nmeabuffer read)
    refine ⟨nmeabuffer', [] :: calls', ?_, hcalls⟩
    rw [List.map_cons, threaden_cons hne, threadenRead_rest hne hfit hread, Option.bind_some, hrest]
    rfl
  | @sentence tail front tail' s sentences reads htail htext hlong h ih =>
    have hs := hwell s (List.mem_cons_self ..)
    obtain ⟨hpos, hfit⟩ := hreads (tail ++ front) (List.mem_cons_self ..)
    have hne : tail ++ front ≠ [] := List.length_pos_iff.mp hpos
    have hlen := hs.length_text
    rw [List.length_append] at hlen
    have hbefore : lettersBefore s.sentencenum st.lettersread ≤ 500 := lettersBefore_le _ hletters
    -- the run on whole sentences
    rw [List.map_cons, List.map_cons, threaden_cons s.text_ne_nil] at hrun
    obtain ⟨⟨st₁, calls₁⟩, hread, hrun⟩ := Option.bind_eq_some_iff.mp hrun
    obtain ⟨⟨st₂, calls₂⟩, hlater, heq⟩ := Option.bind_eq_some_iff.mp hrun
    obtain ⟨rfl, rfl⟩ := Prod.mk.inj (Option.some.inj heq)
    have hnext := threadenRead_lettersread s.text_ne_nil hread hletters
    have hwhole := threadenRead_part hs List.not_mem_nil (List.prefix_refl _) s.length_payload_le
      (by rw [List.nil_append]; omega) st hbefore
    rw [List.nil_append, hread, takePayload_nmeabuffer] at hwhole
    -- the run on the reads
    obtain ⟨⟨st₀, calls₀⟩, htake, heq⟩ := Option.map_eq_some_iff.mp hwhole.symm
    obtain ⟨rfl, rfl⟩ := Prod.mk.inj heq
    have hpart : threadenRead (tail ++ front) { st with nmeabuffer } =
        some ({ st₀ with nmeabuffer := afterRead nmeabuffer (tail ++ front) }, calls₀) := by
      refine (threadenRead_part hs htail ⟨tail', htext.symm⟩ hlong hfit { st with nmeabuffer }
        hbefore).trans ?_
      refine (takePayload_nmeabuffer _ _ _ st (afterRead nmeabuffer (tail ++ front))).trans ?_
      rw [htake]
      rfl
    obtain ⟨nmeabuffer', calls', hrest, hcalls⟩ := ih
      (fun s hs => hwell s (List.mem_cons_of_mem _ hs))
      (fun r hr => hreads r (List.mem_cons_of_mem _ hr)) hnext hlater
      (afterRead nmeabuffer (tail ++ front))
    refine ⟨nmeabuffer', calls₀ :: calls', ?_, ?_⟩
    · rw [List.map_cons, threaden_cons hne, hpart, Option.bind_some, hrest]
      rfl
    · rw [List.flatten_cons, List.flatten_cons, hcalls]

/-! ## One decoding a read

This holds of any reads. It is what the counterexample below rests on: two sentences in
one read cannot both be decoded. -/

/-- The functions of a pass, from the inside out. -/
theorem finishSentence_aisdecodes {sentences sentencenumb : ℤ} {st st' : GuiState}
    {calls : List GuiCall} (h : finishSentence sentences sentencenumb st = some (st', calls)) :
    (aisdecodes calls).length ≤ 1 := by
  rw [finishSentence] at h
  simp only [Option.bind_eq_bind] at h
  split at h
  · obtain ⟨aisline, -, h⟩ := Option.bind_eq_some_iff.mp h
    obtain ⟨decoded, -, h⟩ := Option.bind_eq_some_iff.mp h
    rw [Option.bind_some] at h
    split at h <;> obtain ⟨-, rfl⟩ := Prod.mk.inj (Option.some.inj h) <;> exact le_rfl
  · rw [Option.bind_some] at h
    split at h <;> obtain ⟨-, rfl⟩ := Prod.mk.inj (Option.some.inj h) <;> exact Nat.zero_le _

theorem takeSentence_aisdecodes {m r : ℕ} {st st' : GuiState} {calls : List GuiCall}
    (h : takeSentence m r st = some (st', calls)) : (aisdecodes calls).length ≤ 1 := by
  rw [takeSentence] at h
  obtain ⟨k, -, h⟩ := Option.bind_eq_some_iff.mp h
  obtain ⟨sentences, -, h⟩ := Option.bind_eq_some_iff.mp h
  obtain ⟨sentencenumb, -, h⟩ := Option.bind_eq_some_iff.mp h
  split at h
  · obtain ⟨-, rfl⟩ := Prod.mk.inj (Option.some.inj h)
    exact Nat.zero_le _
  · obtain ⟨copied, -, h⟩ := Option.bind_eq_some_iff.mp h
    exact finishSentence_aisdecodes h

theorem threadenRead_aisdecodes {bytes : List UInt8} {st st' : GuiState} {calls : List GuiCall}
    (h : threadenRead bytes st = some (st', calls)) : (aisdecodes calls).length ≤ 1 := by
  rw [threadenRead] at h
  obtain ⟨stored, -, h⟩ := Option.bind_eq_some_iff.mp h
  obtain ⟨nmeabuffer, -, h⟩ := Option.bind_eq_some_iff.mp h
  obtain ⟨m, -, h⟩ := Option.bind_eq_some_iff.mp h
  split at h
  · obtain ⟨-, rfl⟩ := Prod.mk.inj (Option.some.inj h)
    exact Nat.zero_le _
  · obtain ⟨starts, -, h⟩ := Option.bind_eq_some_iff.mp h
    cases starts with
    | true => exact takeSentence_aisdecodes h
    | false =>
      obtain ⟨-, rfl⟩ := Prod.mk.inj (Option.some.inj h)
      exact Nat.zero_le _

/-- However the stream is cut, there are no more decodings than reads. -/
theorem length_aisdecodes_le {reads : List (List UInt8)} {st st' : GuiState}
    {calls : List (List GuiCall)} (h : threaden (reads.map some) st = some (st', calls)) :
    (aisdecodes calls.flatten).length ≤ reads.length := by
  induction reads generalizing st st' calls with
  | nil =>
    obtain ⟨-, rfl⟩ := Prod.mk.inj (Option.some.inj h)
    exact le_rfl
  | cons read reads ih =>
    by_cases hne : read = []
    · subst hne
      obtain ⟨-, rfl⟩ := Prod.mk.inj (Option.some.inj h)
      exact Nat.zero_le _
    · rw [List.map_cons, threaden_cons hne] at h
      obtain ⟨⟨st₁, calls₁⟩, hread, h⟩ := Option.bind_eq_some_iff.mp h
      obtain ⟨⟨st₂, calls₂⟩, hrest, h⟩ := Option.bind_eq_some_iff.mp h
      obtain ⟨-, rfl⟩ := Prod.mk.inj (Option.some.inj h)
      rw [List.flatten_cons, aisdecodes_append, List.length_append, List.length_cons,
        Nat.add_comm reads.length]
      exact Nat.add_le_add (threadenRead_aisdecodes hread) (ih hrest)

/-! ## Where the sentences lie

`WholeIn` speaks about the stream and about where the reads end in it. `Cut` follows the
reads one by one, which is what the induction needs; the lemmas go from the one to the
other. -/

/-- The sentence `text`, which stands in the stream behind `before`, is whole in one of
the reads: no `!` stands in front of it in this read, which reaches the end of its
payload. It speaks about places in the stream, so it can be checked from the lengths of
the reads. -/
def WholeIn (reads : List (List UInt8)) (before text : List UInt8) : Prop :=
  ∃ earlier tail front later, reads = earlier ++ (tail ++ front) :: later ∧
    earlier.flatten ++ tail = before ∧ 33 ∉ tail ∧ nthComma 6 text ≤ front.length

/-- The sixth comma is the one behind the payload. -/
theorem Sentence.WellFormed.nthComma_text {s : Sentence} (h : s.WellFormed) :
    nthComma 6 s.text = 14 + s.payload.length := by
  obtain ⟨head, rest, htext, hlen, hcount, -⟩ := h.text_payload
  obtain ⟨-, -, -, -, hpayload, -⟩ := h.no_comma
  have hsplit : s.text = (head ++ 44 :: s.payload) ++ 44 :: rest := by
    rw [htext]
    simp only [List.append_assoc, List.cons_append, List.nil_append]
  have hfive : (head ++ 44 :: s.payload).count 44 + 1 = 6 := by
    rw [List.count_append, List.count_cons_self, hcount, List.count_eq_zero.mpr hpayload]
  rw [hsplit, ← hfive, nthComma_append, List.length_append, List.length_cons, hlen]
  omega

/-- A read that ends in front of a sentence is not the one the sentence is in. -/
theorem WholeIn.skip {read : List UInt8} {reads : List (List UInt8)} {before text : List UInt8}
    (h : WholeIn (read :: reads) (read ++ before) text) (hpos : 0 < nthComma 6 text) :
    WholeIn reads before text := by
  obtain ⟨earlier, tail, front, later, hreads, hbefore, htail, hlong⟩ := h
  cases earlier with
  | nil =>
    obtain ⟨rfl, -⟩ := List.cons_eq_cons.mp hreads
    have hlen := congrArg List.length hbefore
    simp only [List.flatten_nil, List.nil_append, List.length_append] at hlen
    omega
  | cons first earlier =>
    rw [List.cons_append] at hreads
    obtain ⟨rfl, hrest⟩ := List.cons_eq_cons.mp hreads
    rw [List.flatten_cons, List.append_assoc, List.append_cancel_left_eq] at hbefore
    exact ⟨earlier, tail, front, later, hrest, hbefore, htail, hlong⟩

/-- A read that goes past the start of a sentence is the one the sentence is in. -/
theorem WholeIn.here {before front : List UInt8} {reads : List (List UInt8)} {text : List UInt8}
    (h : WholeIn ((before ++ front) :: reads) before text) (hfront : front ≠ []) :
    33 ∉ before ∧ nthComma 6 text ≤ front.length := by
  obtain ⟨earlier, tail, front', later, hreads, hbefore, htail, hlong⟩ := h
  cases earlier with
  | nil =>
    obtain ⟨hread, -⟩ := List.cons_eq_cons.mp hreads
    rw [List.flatten_nil, List.nil_append] at hbefore
    rw [hbefore] at hread htail
    rw [List.append_cancel_left_eq] at hread
    rw [hread]
    exact ⟨htail, hlong⟩
  | cons first earlier =>
    obtain ⟨rfl, -⟩ := List.cons_eq_cons.mp hreads
    have hlen := congrArg List.length hbefore
    have hpos := List.length_pos_iff.mpr hfront
    simp only [List.flatten_cons, List.length_append] at hlen
    omega

/-- Each of the sentences, which stand in the stream behind `tail`, is whole in one
of the reads. -/
def AllWhole (reads : List (List UInt8)) (tail : List UInt8) (sentences : List Sentence) : Prop :=
  ∀ before s after, sentences = before ++ s :: after →
    WholeIn reads (tail ++ (before.map Sentence.text).flatten) s.text

section

variable {read front tail tail' : List UInt8} {reads : List (List UInt8)} {s : Sentence}
  {sentences : List Sentence}

/-- No `!` stands behind the first character of a sentence. -/
theorem Sentence.WellFormed.no_bang_behind (h : s.WellFormed) (htext : s.text = front ++ tail)
    (hfront : front ≠ []) : 33 ∉ tail := by
  cases front with
  | nil => exact absurd rfl hfront
  | cons c front =>
    have hbody : s.body = front ++ tail := (List.cons_eq_cons.mp htext).2
    have hnone := h.no_bang
    rw [hbody, List.mem_append, not_or] at hnone
    exact hnone.2

/-- A read that brings a part of what is left over holds none of them. -/
theorem AllWhole.skip (h : AllWhole (read :: reads) (read ++ tail) sentences)
    (hwell : ∀ s ∈ sentences, s.WellFormed) : AllWhole reads tail sentences := by
  intro before s after hsplit
  have hs : s ∈ sentences := by
    rw [hsplit]
    exact List.mem_append_right _ (List.mem_cons_self ..)
  have hin := h before s after hsplit
  rw [List.append_assoc] at hin
  refine hin.skip ?_
  rw [(hwell s hs).nthComma_text]
  omega

/-- A read that goes past the start of the first sentence holds its payload. -/
theorem AllWhole.here (h : AllWhole ((tail ++ front) :: reads) tail (s :: sentences))
    (hs : s.WellFormed) (hfront : front ≠ []) : 14 + s.payload.length ≤ front.length := by
  have hin := h [] s sentences rfl
  rw [List.map_nil, List.flatten_nil, List.append_nil] at hin
  rw [← hs.nthComma_text]
  exact (hin.here hfront).2

/-- The other sentences are whole in the reads behind it. -/
theorem AllWhole.next (h : AllWhole ((tail ++ front) :: reads) tail (s :: sentences))
    (htext : s.text = front ++ tail') (hwell : ∀ s ∈ sentences, s.WellFormed) :
    AllWhole reads tail' sentences := by
  have hall : AllWhole ((tail ++ front) :: reads) ((tail ++ front) ++ tail') sentences := by
    intro before s' after hsplit
    have hnext := h (s :: before) s' after (by rw [hsplit]; rfl)
    rw [List.map_cons, List.flatten_cons, htext] at hnext
    rw [List.append_assoc, List.append_assoc, ← List.append_assoc front]
    exact hnext
  exact hall.skip hwell

/-- Such a read ends within the first sentence: one that went on would have the next
`!` in it, with the first one in front. -/
theorem AllWhole.ends (h : AllWhole ((tail ++ front) :: reads) tail (s :: sentences))
    (hstream : front ++ reads.flatten = s.text ++ (sentences.map Sentence.text).flatten) :
    ∃ tail', s.text = front ++ tail' ∧
      reads.flatten = tail' ++ (sentences.map Sentence.text).flatten := by
  rcases List.append_eq_append_iff.mp hstream with ⟨tail', htext, hlater⟩ | ⟨more, hmore, hlater⟩
  · exact ⟨tail', htext, hlater⟩
  · cases more with
    | nil => exact ⟨[], by rw [hmore, List.append_nil, List.append_nil], hlater.symm⟩
    | cons c more =>
      cases sentences with
      | nil => exact absurd hlater (List.cons_ne_nil _ _).symm
      | cons s₂ sentences =>
        have hnext := h [s] s₂ sentences rfl
        rw [List.map_singleton, List.flatten_singleton, hmore, ← List.append_assoc] at hnext
        have hbang := (hnext.here (List.cons_ne_nil c more)).1
        exact absurd (List.mem_append_right _ (List.mem_cons_self ..)) hbang

end

/-- Reads that hold each sentence whole are cut between the payloads. The induction is
on the reads: one brings a part of what is left over, or all of it and the next
sentence up to the end of its payload at least. -/
theorem cut_of_wholeIn {reads : List (List UInt8)} (hreads : ∀ read ∈ reads, read ≠ [])
    {tail : List UInt8} {sentences : List Sentence} (hwell : ∀ s ∈ sentences, s.WellFormed)
    (htail : 33 ∉ tail)
    (hstream : reads.flatten = tail ++ (sentences.map Sentence.text).flatten)
    (hwhole : AllWhole reads tail sentences) : Cut tail sentences reads := by
  induction reads generalizing tail sentences with
  | nil =>
    cases sentences with
    | nil =>
      rw [List.map_nil, List.flatten_nil, List.append_nil] at hstream
      rw [← hstream]
      exact .done
    | cons s sentences =>
      have hlen := congrArg List.length hstream
      simp only [List.map_cons, List.flatten_cons, List.flatten_nil, List.length_append,
        List.length_nil, Sentence.text, List.length_cons] at hlen
      omega
  | cons read reads ih =>
    have hrest : ∀ r ∈ reads, r ≠ [] := fun r hr => hreads r (List.mem_cons_of_mem _ hr)
    rw [List.flatten_cons] at hstream
    by_cases hshort : read.length ≤ tail.length
    · -- the read brings a part of what is left over
      obtain ⟨tail', rfl⟩ : read <+: tail :=
        List.prefix_of_prefix_length_le ⟨_, hstream⟩ (List.prefix_append _ _) hshort
      rw [List.mem_append, not_or] at htail
      rw [List.append_assoc, List.append_cancel_left_eq] at hstream
      exact .rest htail.1 (ih hrest hwell htail.2 hstream (hwhole.skip hwell))
    · -- the read goes into the next sentence, so it holds its payload
      obtain ⟨front, rfl⟩ : tail <+: read :=
        List.prefix_of_prefix_length_le (List.prefix_append _ _) ⟨_, hstream⟩ (by omega)
      have hfront : front ≠ [] := by
        rintro rfl
        rw [List.append_nil] at hshort
        exact hshort le_rfl
      rw [List.append_assoc, List.append_cancel_left_eq] at hstream
      cases sentences with
      | nil => exact absurd (List.append_eq_nil_iff.mp hstream).1 hfront
      | cons s sentences =>
        have hs := hwell s (List.mem_cons_self ..)
        have hlater : ∀ s' ∈ sentences, s'.WellFormed := fun s' hs' =>
          hwell s' (List.mem_cons_of_mem _ hs')
        rw [List.map_cons, List.flatten_cons] at hstream
        obtain ⟨tail', htext, hstream'⟩ := hwhole.ends hstream
        exact .sentence htail htext (hwhole.here hs hfront) (ih hrest hlater
          (hs.no_bang_behind htext hfront) hstream' (hwhole.next htext hlater))

/-! ## Any cut between the payloads

The condition is met by one read a sentence, and by many other cuts; it is not met by two
sentences in one read, and then the second is lost. -/

/-- The sentences of accepted frames, all of them well formed. -/
theorem sentences_written {cfg : Config} {frames : List Handed}
    (haccepted : ∀ f ∈ frames, f.Accepted cfg) (hknown : ∀ f ∈ frames, KnownType f.rbuffer) :
    ∃ sentences : List Sentence,
      (frames.flatMap fun f => ipcWrites f.calls) = sentences.map Sentence.text ∧
      ∀ s ∈ sentences, s.WellFormed := by
  induction frames with
  | nil => exact ⟨[], rfl, fun _ h => nomatch h⟩
  | cons f frames ih =>
    obtain ⟨sentences, hsent, hwell, -, -⟩ :=
      (haccepted f (List.mem_cons_self ..)).sentences (hknown f (List.mem_cons_self ..))
    obtain ⟨rest, hrest, hwell'⟩ := ih (fun g hg => haccepted g (List.mem_cons_of_mem _ hg))
      (fun g hg => hknown g (List.mem_cons_of_mem _ hg))
    refine ⟨sentences ++ rest, ?_, fun s hs => (List.mem_append.mp hs).elim (hwell s) (hwell' s)⟩
    rw [List.flatMap_cons, hsent, hrest, List.map_append]

/-- The bytes `ipc_write` puts on the socket for any sequence of accepted frames of known
types, read in any pieces in which every sentence is whole up to the end of its payload,
with no `!` in front of it: `aisdecode` is called once for each frame, in their order, and
gets exactly its padded bits. The condition is on where the reads end, which the daemon
does not decide. -/
theorem whole_sentences_delivered (cfg : Config) {frames : List Handed}
    (haccepted : ∀ f ∈ frames, f.Accepted cfg) (hknown : ∀ f ∈ frames, KnownType f.rbuffer)
    {reads : List (List UInt8)} (hreads : ∀ read ∈ reads, 1 ≤ read.length ∧ read.length ≤ 255)
    (hstream : reads.flatten = (frames.flatMap fun f => ipcWrites f.calls).flatten)
    (hwhole : ∀ before text after,
      (frames.flatMap fun f => ipcWrites f.calls) = before ++ text :: after →
      WholeIn reads before.flatten text)
    (nmeabuffer : NmeaBuffer) (aisline : AisLine) (shipd : ShipData) :
    ∃ gui' calls,
      threaden (reads.map some) (.initial nmeabuffer aisline shipd) = some (gui', calls) ∧
      List.Forall₂ Handed.Decoded frames (aisdecodes calls.flatten) := by
  obtain ⟨sentences, hsent, hwell⟩ := sentences_written haccepted hknown
  obtain ⟨gui', calls, hrun, -, hdecoded⟩ :=
    threaden_frames cfg haccepted hknown (.initial nmeabuffer aisline shipd)
  rw [hsent] at hstream hwhole hrun
  have hcut : Cut [] sentences reads := by
    refine cut_of_wholeIn (fun read hr => List.length_pos_iff.mp (hreads read hr).1) hwell
      List.not_mem_nil hstream fun before s after hsplit => ?_
    refine hwhole (before.map Sentence.text) s.text (after.map Sentence.text) ?_
    rw [hsplit, List.map_append, List.map_cons]
  obtain ⟨nmeabuffer', calls', hrun', hcalls⟩ :=
    hcut.threaden_eq hwell hreads (Nat.zero_le _) hrun nmeabuffer
  rw [← hcalls] at hdecoded
  exact ⟨_, calls', hrun', hdecoded⟩

/-- The same frame twice, and the first sentence is cut behind its payload: what is left of
it comes with the second. -/
theorem whole_sentences_delivered_cut : ∃ (f : Handed) (front tail : List UInt8),
    f.rbuffer = octetFrame ∧ ipcWrites f.calls = [front ++ tail] ∧ tail ≠ [] ∧ ∃ gui' calls,
    threaden ([front, tail ++ (front ++ tail)].map some)
      (.initial (.replicate 256 0) (.replicate 500 0) ⟨0, 0, .lit 0, .lit 0, .lit 0, .lit 0, .lit 0⟩)
      = some (gui', calls) ∧
    List.Forall₂ Handed.Decoded [f, f] (aisdecodes calls.flatten) := by
  obtain ⟨f, hf, hlen, haccepted, hknown⟩ := octetFrame_accepted
  obtain ⟨sentences, hsent, hwell, hcount, -⟩ := haccepted.sentences hknown
  rw [hlen] at hcount
  obtain ⟨s, rfl⟩ := List.length_eq_one_iff.mp (hcount.trans (by decide))
  have hs := hwell s (List.mem_singleton_self s)
  obtain ⟨front, tail, htext, hcomma, htail⟩ : ∃ front tail, s.text = front ++ tail ∧
      nthComma 6 s.text = front.length ∧ tail ≠ [] := by
    obtain ⟨head, rest, htext, hhead, -⟩ := hs.text_payload
    refine ⟨head ++ 44 :: s.payload, 44 :: rest, ?_, ?_, List.cons_ne_nil _ _⟩
    · rw [htext]
      simp only [List.append_assoc, List.cons_append, List.nil_append]
    · rw [hs.nthComma_text, List.length_append, List.length_cons, hhead]
      omega
  have hfront : 1 ≤ front.length := by rw [← hcomma, hs.nthComma_text]; omega
  have hbang : 33 ∉ tail := hs.no_bang_behind htext (List.length_pos_iff.mp hfront)
  have hshort := hs.length_text
  rw [List.length_append, htext, List.length_append] at hshort
  have hwrites : ([f, f].flatMap fun f => ipcWrites f.calls) = [front ++ tail, front ++ tail] := by
    rw [List.flatMap_cons, List.flatMap_singleton, hsent, List.map_singleton, htext]
    rfl
  refine ⟨f, front, tail, hf, by rw [hsent, List.map_singleton, htext], htail,
    whole_sentences_delivered .silent (fun g hg => ?_) (fun g hg => ?_) (fun read hread => ?_) ?_
      (fun before text after hsplit => ?_) _ _ _⟩
  · rcases List.mem_pair.mp hg with rfl | rfl <;> exact haccepted
  · rcases List.mem_pair.mp hg with rfl | rfl <;> exact hknown
  · rcases List.mem_pair.mp hread with rfl | rfl
    · omega
    · rw [List.length_append, List.length_append]
      omega
  · rw [hwrites]
    simp only [List.flatten_cons, List.flatten_nil, List.append_nil, List.append_assoc]
  · rw [hwrites] at hsplit
    -- the first sentence is whole in the first read, and the second in the second
    rcases before with _ | ⟨first, _ | ⟨second, before⟩⟩
    · obtain ⟨rfl, -⟩ := List.cons_eq_cons.mp hsplit
      exact ⟨[], [], front, _, rfl, rfl, List.not_mem_nil, by rw [← htext, hcomma]⟩
    · obtain ⟨rfl, hrest⟩ := List.cons_eq_cons.mp hsplit
      obtain ⟨rfl, -⟩ := List.cons_eq_cons.mp hrest
      refine ⟨[front], tail, front ++ tail, [], rfl, ?_, hbang, ?_⟩
      · rw [List.flatten_singleton, List.flatten_singleton]
      · rw [← htext, hcomma, htext, List.length_append]
        exact Nat.le_add_right _ _
    · have hlength := congrArg List.length hsplit
      simp only [List.cons_append, List.length_cons, List.length_append, List.length_nil] at hlength
      omega

/-- Two sentences in one read: the second is lost. -/
theorem coalesced_sentence_lost :
    ¬ ∀ (cfg : Config) (frames : List Handed), (∀ f ∈ frames, f.Accepted cfg) →
        (∀ f ∈ frames, KnownType f.rbuffer) → ∀ reads : List (List UInt8),
        (∀ read ∈ reads, 1 ≤ read.length ∧ read.length ≤ 255) →
        reads.flatten = (frames.flatMap fun f => ipcWrites f.calls).flatten →
        ∀ (nmeabuffer : NmeaBuffer) (aisline : AisLine) (shipd : ShipData), ∃ gui' calls,
          threaden (reads.map some) (.initial nmeabuffer aisline shipd) = some (gui', calls) ∧
          List.Forall₂ Handed.Decoded frames (aisdecodes calls.flatten) := by
  intro hclaim
  obtain ⟨f, hf, hlen, haccepted, hknown⟩ := octetFrame_accepted
  obtain ⟨sentences, hsent, hwell, hcount, -⟩ := haccepted.sentences hknown
  rw [hlen] at hcount
  obtain ⟨s, rfl⟩ := List.length_eq_one_iff.mp (hcount.trans (by decide))
  have hs := hwell s (List.mem_singleton_self s)
  have hshort := hs.length_text
  rw [List.length_append] at hshort
  have hpos : 0 < s.text.length := List.length_pos_iff.mpr s.text_ne_nil
  obtain ⟨gui', calls, hrun, hall⟩ := hclaim .silent [f, f]
    (by
      intro g hg
      rcases List.mem_pair.mp hg with rfl | rfl <;> exact haccepted)
    (by
      intro g hg
      rcases List.mem_pair.mp hg with rfl | rfl <;> exact hknown)
    [s.text ++ s.text]
    (by
      intro read hread
      rw [List.mem_singleton.mp hread, List.length_append]
      omega)
    (by
      rw [List.flatMap_cons, List.flatMap_singleton, hsent, List.map_singleton,
        List.flatten_append, List.flatten_singleton, List.flatten_singleton])
    (.replicate 256 0) (.replicate 500 0) ⟨0, 0, .lit 0, .lit 0, .lit 0, .lit 0, .lit 0⟩
  have htwo := hall.length_eq
  have hone := length_aisdecodes_le hrun
  rw [← htwo] at hone
  exact Nat.not_succ_le_self 1 hone

end Gnuais
