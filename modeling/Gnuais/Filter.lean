import Gnuais.Receiver
import Gnuais.Lib.Buffer
import Gnuais.Lib.Window

/-!
# The FIR filter (`filter.c`)

A filter keeps its last inputs in a buffer of 1024 samples and moves along it;
when it gets to the end, the last ones are copied back to the front. There are
two entries, `filter_run` for one sample and `filter_run_buf` for a buffer of
them, each with its own copy of the loop body.

* `Filter` — `struct filter`, with `filterInit`, `filterRun` and `filterRunBuf`.
  The arithmetic of `float` is left abstract: any type with a zero, a sum and a
  product will do, and nothing is assumed of them.
* `Filter.Holds` — the buffer before the pointer holds the last inputs.
* `fir_chunking` — whatever the calls are, the outputs are those of a window that
  slides along the stream.
-/

namespace Gnuais

open Buffer Window

/-- `BufferLen` -/
abbrev bufferLen : ℕ := 1024

variable {α : Type}

/-- `struct filter` -/
structure Filter (α : Type) where
  /-- the number of coefficients -/
  length : ℕ
  /-- the coefficients -/
  taps : List α
  /-- the last inputs, and older ones that nothing reads again -/
  buffer : Vector α bufferLen
  /-- where the next input goes -/
  pointer : ℕ

section Code

variable [Zero α] [Add α] [Mul α]

/-- `filter_mac` -/
def filterMac (a b : List α) (size : ℕ) : Option α :=
  (List.range size).foldlM (fun sum i => do return sum + (← a[i]?) * (← b[i]?)) 0

/-- `filter_init`; `memset` fills the buffer with zeroes. -/
def filterInit (len : ℕ) (taps : List α) : Option (Filter α) :=
  if len ≤ taps.length then
    some
      { length := len
        taps := taps.take len
        buffer := Vector.replicate _ 0
        pointer := len }
  else none

/-- `memcpy(buffer, buffer + from, len)`. Stretches that overlap are a fault. -/
def copyDown (buffer : Vector α bufferLen) (start len : ℕ) : Option (Vector α bufferLen) :=
  if len ≤ start ∧ start + len ≤ bufferLen then
    storeAt buffer 0 ((buffer.toList.drop start).take len)
  else none

/-- `filter_run`: the filter behind it and `*out`. -/
def filterRun (f : Filter α) (x : α) : Option (Filter α × α) := do
  let ptr := f.pointer
  let pointer := f.pointer + 1
  let buffer ← wr f.buffer ptr x
  if ptr < f.length then none
  else do
    let out ← filterMac (buffer.toList.drop (ptr - f.length)) f.taps f.length
    if pointer = bufferLen then do
      let buffer ← copyDown buffer (bufferLen - f.length) f.length
      return ({ f with buffer := buffer, pointer := f.length }, out)
    else return ({ f with buffer := buffer, pointer := pointer }, out)

/-- The loop of `filter_run_buf`, with `left` samples to go. `input i` is what
`in[i]` reads, and `ofShort` the conversion of a sample to `float`. -/
def filterLoop (ofShort : Int16 → α) (length : ℕ) (taps : List α) (input : ℤ → Option Int16)
    (step : ℤ) (left : ℕ) (id : ℤ) (maxval : Int16) (pointer : ℕ) (buffer : Vector α bufferLen) :
    Option (Vector α bufferLen × ℕ × List α × Int16) :=
  match left with
  | 0 => some (buffer, pointer, [], maxval)
  | left + 1 => do
    let x ← input id
    let buffer ← wr buffer pointer (ofShort x)
    -- look for peak volume
    let maxval := if x > maxval then x else maxval
    if pointer < length then none
    else do
      let out ← filterMac (buffer.toList.drop (pointer - length)) taps length
      let pointer := pointer + 1
      -- the buffer is much smaller than the incoming chunks
      let (buffer, pointer) ←
        if pointer = bufferLen then
          (copyDown buffer (bufferLen - length) length).map fun buffer => (buffer, length)
        else some (buffer, pointer)
      let (buffer, pointer, outs, maxval) ←
        filterLoop ofShort length taps input step left (id + step) maxval pointer buffer
      return (buffer, pointer, out :: outs, maxval)

/-- `filter_run_buf`: the filter behind it, what it stores in `out`, and the peak
volume. -/
def filterRunBuf (ofShort : Int16 → α) (f : Filter α) (input : ℤ → Option Int16) (step : ℤ)
    (len : ℕ) : Option (Filter α × List α × Int16) := do
  let (buffer, pointer, outs, maxval) ←
    filterLoop ofShort f.length f.taps input step len 0 0 f.pointer f.buffer
  return ({ f with buffer := buffer, pointer := pointer }, outs, maxval)

/-- What `buf[i]` reads behind `buf += rx->ch_ofs`. -/
def channelOf (buf : List Int16) (chOfs : ℕ) (i : ℤ) : Option Int16 :=
  if 0 ≤ chOfs + i then buf[(chOfs + i).toNat]? else none

/-- The filter of `receiver_run`; with more samples than `filtered` has room for it
aborts. -/
def receiverFilter (ofShort : Int16 → α) (numCh chOfs : ℕ) (buf : List Int16) (len : ℕ)
    (f : Filter α) : Option (Filter α × List α × Int16) :=
  if len > filteredLen then none
  else filterRunBuf ofShort f (channelOf buf chOfs) numCh len

end Code

/-! ## The buffer holds the window

An input is stored behind the window, and the window moves on by one. At the end of the
buffer it is copied to the front; between the two it is in the same place relative to the
pointer. -/

/-- The buffer in front of the pointer holds the last inputs. Older inputs are still in
the array behind it, and are overwritten in time. -/
structure Filter.Holds (f : Filter α) (w : List α) : Prop where
  /-- `w` has one input for each coefficient -/
  window : w.length = f.length
  /-- the coefficients are those of the array -/
  taps : f.taps.length = f.length
  /-- the inputs can be copied to the front without overlapping themselves -/
  half : f.length ≤ bufferLen / 2
  /-- they lie in the array -/
  low : f.length ≤ f.pointer
  /-- and there is room for the next one -/
  high : f.pointer < bufferLen
  /-- they are right below the pointer -/
  held : HoldsAt f.buffer (f.pointer - f.length) w

/-- `filter_init` gives a filter that holds zeroes. -/
theorem filterInit_holds [Zero α] {len : ℕ} {taps : List α} (htaps : len ≤ taps.length)
    (hhalf : len ≤ bufferLen / 2) :
    ∃ f, filterInit len taps = some f ∧ f.length = len ∧ f.taps = taps.take len ∧
      f.Holds (List.replicate len 0) := by
  refine ⟨_, if_pos htaps, rfl, rfl, ?_⟩
  constructor
  · exact List.length_replicate
  · exact List.length_take_of_le htaps
  · exact hhalf
  · exact Nat.le_refl _
  · exact lt_of_le_of_lt hhalf (by decide)
  · intro i hi
    rw [List.length_replicate] at hi
    rw [Nat.sub_self, Nat.zero_add, List.getElem?_replicate, if_pos hi, Vector.getElem?_replicate,
      if_pos (hi.trans (lt_of_le_of_lt hhalf (by decide)))]

section Proofs

variable [Zero α] [Add α] [Mul α]

/-- Inside both arrays the sum is taken. -/
theorem filterMac_eq {w taps : List α} {size : ℕ} (hw : size ≤ w.length)
    (htaps : size ≤ taps.length) : filterMac w taps size =
      some ((List.range size).foldl
        (fun sum i => sum + (w[i]?).getD 0 * (taps[i]?).getD 0) 0) := by
  refine Buffer.foldlM_some (fun sum i hi => ?_) 0
  have hlt : i < size := List.mem_range.mp hi
  rw [List.getElem?_eq_getElem (show i < w.length by omega),
    List.getElem?_eq_getElem (show i < taps.length by omega)]
  rfl

/-- Only the first `size` elements count. -/
theorem filterMac_append {w taps : List α} {size : ℕ} (hw : size ≤ w.length)
    (htaps : size ≤ taps.length) (rest : List α) :
    filterMac (w ++ rest) taps size = filterMac w taps size := by
  rw [filterMac_eq hw htaps, filterMac_eq (by rw [List.length_append]; omega) htaps]
  refine congrArg some (List.foldl_ext _ _ _ fun sum i hi => ?_)
  have hlt : i < size := List.mem_range.mp hi
  rw [List.getElem?_append_left (by omega)]

/-- One sample: the output is that of the window before it, and the window slides
on. At the end of the buffer it is copied to the front. -/
theorem Filter.Holds.run {f : Filter α} {w : List α} (h : f.Holds w) (x : α) :
    ∃ f' out, filterRun f x = some (f', out) ∧ filterMac w f.taps f.length = some out ∧
      f'.length = f.length ∧ f'.taps = f.taps ∧ f'.Holds (slide w x) := by
  obtain ⟨hwindow, htaps, hhalf, hlow, hhigh, hheld⟩ := h
  have hbuffer : HoldsAt (f.buffer.setIfInBounds f.pointer x) (f.pointer - f.length) (w ++ [x]) := by
    have hsplice := hheld.splice [x] (by rw [List.length_singleton]; omega)
    rwa [show f.pointer - f.length + w.length = f.pointer by omega] at hsplice
  obtain ⟨out, hout⟩ : ∃ out, filterMac w f.taps f.length = some out :=
    ⟨_, filterMac_eq hwindow.ge htaps.ge⟩
  -- the filter reads the window only, not the sample that has just been stored
  have hmac : filterMac ((f.buffer.setIfInBounds f.pointer x).toList.drop (f.pointer - f.length))
      f.taps f.length = some out := by
    rw [hbuffer.drop_toList, List.append_assoc, filterMac_append hwindow.ge htaps.ge, hout]
  -- one place further on the buffer holds the window after the sample
  have hslid : HoldsAt (f.buffer.setIfInBounds f.pointer x) (f.pointer + 1 - f.length)
      (slide w x) := by
    have hdrop := hbuffer.drop 1
    rwa [show f.pointer - f.length + 1 = f.pointer + 1 - f.length by omega] at hdrop
  have hslide : (slide w x).length = f.length := (length_slide w x).trans hwindow
  rw [filterRun]
  simp only [wr_eq f.buffer x hhigh, Option.bind_eq_bind, Option.bind_some, hmac]
  rw [if_neg (by omega)]
  -- at the end of the buffer the new window goes to the front, and the pointer with it
  by_cases hend : f.pointer + 1 = bufferLen
  · rw [hend] at hslid
    have hcopied : ((f.buffer.setIfInBounds f.pointer x).toList.drop (bufferLen - f.length)).take
        f.length = slide w x := by
      rw [hslid.drop_toList]
      exact List.take_left' hslide
    have hcopy : copyDown (f.buffer.setIfInBounds f.pointer x) (bufferLen - f.length) f.length =
        some (splice (f.buffer.setIfInBounds f.pointer x) 0 (slide w x)) := by
      rw [copyDown, if_pos (by omega), hcopied, storeAt_eq _ _ _ (by omega)]
    rw [if_pos hend, hcopy]
    refine ⟨_, out, rfl, hout, rfl, rfl, ⟨hslide, htaps, hhalf, Nat.le_refl _,
      lt_of_le_of_lt hhalf (by decide), ?_⟩⟩
    change HoldsAt _ (f.length - f.length) _
    rw [Nat.sub_self]
    exact holdsAt_splice _ _ (by omega)
  · rw [if_neg hend]
    exact ⟨_, out, rfl, hout, rfl, rfl, ⟨hslide, htaps, hhalf, hlow.trans (Nat.le_succ _),
      lt_of_le_of_ne hhigh hend, hslid⟩⟩

/-! ## The loop over a buffer

The body of the loop is written out again in the source. It is shown to be a call of
`filter_run`, and nothing else has to be shown about it. -/

/-- A turn of the loop is a call of `filter_run`. -/
theorem filterLoop_run {ofShort : Int16 → α} {f f' : Filter α} {x : Int16} {out : α}
    (hrun : filterRun f (ofShort x) = some (f', out)) {input : ℤ → Option Int16} {id : ℤ}
    (hinput : input id = some x) (step : ℤ) (left : ℕ) (maxval : Int16) :
    filterLoop ofShort f.length f.taps input step (left + 1) id maxval f.pointer f.buffer =
      (filterLoop ofShort f.length f.taps input step left (id + step)
        (if x > maxval then x else maxval) f'.pointer f'.buffer).map
          fun r => (r.1, r.2.1, out :: r.2.2.1, r.2.2.2) := by
  rw [filterRun] at hrun
  simp only [Option.bind_eq_bind, Option.bind_eq_some_iff] at hrun
  obtain ⟨buffer, hbuffer, hrun⟩ := hrun
  rw [filterLoop, hinput]
  simp only [Option.bind_eq_bind, Option.bind_some, hbuffer]
  by_cases hlow : f.pointer < f.length
  · rw [if_pos hlow] at hrun
    cases hrun
  rw [if_neg hlow] at hrun ⊢
  simp only [Option.bind_eq_some_iff] at hrun
  obtain ⟨out', hout, hrun⟩ := hrun
  rw [hout, Option.bind_some]
  by_cases hend : f.pointer + 1 = bufferLen
  · rw [if_pos hend] at hrun ⊢
    obtain ⟨copied, hcopied, hrun⟩ := Option.bind_eq_some_iff.mp hrun
    obtain ⟨rfl, rfl⟩ := Prod.mk.inj (Option.some.inj hrun)
    rw [hcopied, Option.map_some, Option.bind_some, Option.map_eq_bind]
    rfl
  · rw [if_neg hend] at hrun ⊢
    obtain ⟨rfl, rfl⟩ := Prod.mk.inj (Option.some.inj hrun)
    rw [Option.map_eq_bind]
    rfl

/-- The loop answers as the window does. The induction is on the samples, from any
place in the buffer. -/
theorem filterLoop_spec (ofShort : Int16 → α) {input : ℤ → Option Int16} {step : ℤ}
    (xs : List Int16) : ∀ {f : Filter α} {w : List α}, f.Holds w → ∀ (id : ℤ) (maxval : Int16),
      (∀ k < xs.length, input (id + k * step) = xs[k]?) →
      ∃ (f' : Filter α) (outs : List α) (maxval' : Int16),
        filterLoop ofShort f.length f.taps input step xs.length id maxval f.pointer f.buffer =
          some (f'.buffer, f'.pointer, outs, maxval') ∧
        f'.length = f.length ∧ f'.taps = f.taps ∧
        f'.Holds ((xs.map ofShort).foldl slide w) ∧
        outs.map some =
          outputs (fun w => filterMac w f.taps f.length) w (xs.map ofShort) := by
  induction xs with
  | nil =>
    intro f w h id maxval _
    exact ⟨f, [], maxval, rfl, rfl, rfl, h, rfl⟩
  | cons x xs ih =>
    intro f w h id maxval hinput
    obtain ⟨f', out, hrun, hout, hlength, htaps, hholds⟩ := h.run (ofShort x)
    have hfirst : input id = some x := by
      have hzero := hinput 0 (Nat.succ_pos _)
      rwa [Nat.cast_zero, Int.zero_mul, Int.add_zero] at hzero
    have hrest : ∀ k < xs.length, input (id + step + k * step) = xs[k]? := by
      intro k hk
      have hnext := hinput (k + 1) (Nat.succ_lt_succ hk)
      rwa [List.getElem?_cons_succ, Nat.cast_add, Nat.cast_one, Int.add_mul, Int.one_mul,
        Int.add_comm (k * step), ← Int.add_assoc] at hnext
    obtain ⟨f'', outs, maxval', hloop, hlength', htaps', hholds', houts⟩ :=
      ih hholds (id + step) (if x > maxval then x else maxval) hrest
    rw [hlength, htaps] at hloop houts
    refine ⟨f'', out :: outs, maxval', ?_, hlength'.trans hlength, htaps'.trans htaps, hholds', ?_⟩
    · rw [List.length_cons, filterLoop_run hrun hfirst, hloop]
      rfl
    · rw [List.map_cons, List.map_cons, outputs, hout, houts]

/-- `filter_run_buf` answers as the window does. -/
theorem Filter.Holds.runBuf (ofShort : Int16 → α) {f : Filter α} {w : List α} (h : f.Holds w)
    {input : ℤ → Option Int16} {step : ℤ} {xs : List Int16}
    (hinput : ∀ k < xs.length, input (k * step) = xs[k]?) :
    ∃ f' outs maxval, filterRunBuf ofShort f input step xs.length = some (f', outs, maxval) ∧
      f'.length = f.length ∧ f'.taps = f.taps ∧ f'.Holds ((xs.map ofShort).foldl slide w) ∧
      outs.map some = outputs (fun w => filterMac w f.taps f.length) w (xs.map ofShort) := by
  obtain ⟨f', outs, maxval, hloop, hlength, htaps, hholds, houts⟩ :=
    filterLoop_spec ofShort xs h 0 0 (fun k hk => by rw [Int.zero_add]; exact hinput k hk)
  refine ⟨f', outs, maxval, ?_, hlength, htaps, hholds, houts⟩
  rw [filterRunBuf, hloop, ← hlength, ← htaps]
  rfl

end Proofs

/-! ## Any calls

A stream may reach the filter sample by sample or in buffers of any step and length. What
it puts out is the same. -/

/-- A call that delivers samples to a filter. -/
inductive Delivery (α : Type) where
  /-- `filter_run(f, in, out)` -/
  | one (x : α)
  /-- `filter_run_buf(f, in, out, step, len)`, where `in[i]` reads `input i` -/
  | buf (input : ℤ → Option Int16) (step : ℤ) (len : ℕ)

/-- The samples it delivers. -/
def Delivery.samples (ofShort : Int16 → α) : Delivery α → Option (List α)
  | .one x => some [x]
  | .buf input step len => (List.range len).mapM fun (k : ℕ) => (input (k * step)).map ofShort

/-- Reads that all succeed have read a list. -/
theorem mapM_map_eq_some {β : Type} {read : ℕ → Option β} {g : β → α} {is : List ℕ} :
    ∀ {xs : List α}, is.mapM (fun k => (read k).map g) = some xs →
      ∃ ys : List β, is.map read = ys.map some ∧ ys.map g = xs := by
  induction is with
  | nil =>
    intro xs h
    obtain rfl := Option.some.inj h
    exact ⟨[], rfl, rfl⟩
  | cons i is ih =>
    intro xs h
    rw [List.mapM_cons] at h
    simp only [Option.bind_eq_bind, Option.bind_eq_some_iff, Option.map_eq_some_iff] at h
    obtain ⟨x, ⟨y, hy, rfl⟩, xs, hxs, heq⟩ := h
    obtain rfl := Option.some.inj heq
    obtain ⟨ys, hys, rfl⟩ := ih hxs
    exact ⟨y :: ys, by rw [List.map_cons, List.map_cons, hy, hys], rfl⟩

section Calls

variable [Zero α] [Add α] [Mul α] (ofShort : Int16 → α)

/-- The call: the filter behind it and what it puts out. -/
def Delivery.run (f : Filter α) : Delivery α → Option (Filter α × List α)
  | .one x => (filterRun f x).map fun r => (r.1, [r.2])
  | .buf input step len => (filterRunBuf ofShort f input step len).map fun r => (r.1, r.2.1)

/-- Calls one after the other. -/
def deliver : List (Delivery α) → Filter α → Option (Filter α × List α)
  | [], f => some (f, [])
  | d :: ds, f => do
    let (f, outs) ← d.run ofShort f
    let (f, outs') ← deliver ds f
    return (f, outs ++ outs')

/-- The buffers of a sound input one after the other: each has some frames, with a
sample for every channel. -/
def receiverFilters {numCh : ℕ} (chOfs : ℕ) :
    List (List (Vector Int16 numCh)) → Filter α → Option (Filter α × List α)
  | [], f => some (f, [])
  | frames :: rest, f => do
    let (f, filtered, _) ←
      receiverFilter ofShort numCh chOfs (frames.flatMap Vector.toList) frames.length f
    let (f, filtered') ← receiverFilters chOfs rest f
    return (f, filtered ++ filtered')

variable {ofShort}

/-- Every call answers as the window does. -/
theorem Filter.Holds.delivery {f : Filter α} {w : List α} (h : f.Holds w) {d : Delivery α}
    {xs : List α} (hsamples : d.samples ofShort = some xs) :
    ∃ f' outs, d.run ofShort f = some (f', outs) ∧ f'.length = f.length ∧ f'.taps = f.taps ∧
      f'.Holds (xs.foldl slide w) ∧
      outs.map some = outputs (fun w => filterMac w f.taps f.length) w xs := by
  cases d with
  | one x =>
    obtain rfl := Option.some.inj hsamples
    obtain ⟨f', out, hrun, hout, hlength, htaps, hholds⟩ := h.run x
    refine ⟨f', [out], ?_, hlength, htaps, hholds, ?_⟩
    · rw [Delivery.run, hrun, Option.map_some]
    · rw [List.map_singleton, outputs, outputs, hout]
  | buf input step len =>
    obtain ⟨shorts, hlen, hinput, rfl⟩ : ∃ shorts : List Int16, shorts.length = len ∧
        (∀ k < len, input (k * step) = shorts[k]?) ∧ shorts.map ofShort = xs := by
      have hread : (List.range len).mapM (fun (k : ℕ) => (input (k * step)).map ofShort) = some xs :=
        hsamples
      obtain ⟨shorts, hshorts, hxs⟩ := mapM_map_eq_some hread
      have hlen := congrArg List.length hshorts
      rw [List.length_map, List.length_map, List.length_range] at hlen
      refine ⟨shorts, hlen.symm, fun k hk => ?_, hxs⟩
      have hget := List.getElem?_eq_getElem (show k < shorts.length by omega)
      have hat := congrArg (fun l => l[k]?) hshorts
      simp only [List.getElem?_map, List.getElem?_range hk, Option.map_some, hget] at hat
      rw [Option.some.inj hat, hget]
    obtain ⟨f', outs, maxval, hrun, hlength, htaps, hholds, houts⟩ :=
      h.runBuf ofShort (fun k hk => hinput k (hlen ▸ hk))
    refine ⟨f', outs, ?_, hlength, htaps, hholds, houts⟩
    rw [Delivery.run, ← hlen, hrun, Option.map_some]

/-- Any calls answer as the window does. -/
theorem Filter.Holds.deliver {ds : List (Delivery α)} : ∀ {f : Filter α} {w : List α}
    {xss : List (List α)}, f.Holds w → ds.mapM (Delivery.samples ofShort) = some xss →
    ∃ f' outs, Gnuais.deliver ofShort ds f = some (f', outs) ∧
      outs.map some = outputs (fun w => filterMac w f.taps f.length) w xss.flatten := by
  induction ds with
  | nil =>
    intro f w xss h hsamples
    obtain rfl := Option.some.inj hsamples
    exact ⟨f, [], rfl, rfl⟩
  | cons d ds ih =>
    intro f w xss h hsamples
    rw [List.mapM_cons] at hsamples
    simp only [Option.bind_eq_bind, Option.bind_eq_some_iff] at hsamples
    obtain ⟨xs, hxs, xss, hxss, heq⟩ := hsamples
    obtain rfl := Option.some.inj heq
    obtain ⟨f', outs, hrun, hlength, htaps, hholds, houts⟩ := h.delivery hxs
    obtain ⟨f'', outs', hrest, houts'⟩ := ih hholds hxss
    refine ⟨f'', outs ++ outs', ?_, ?_⟩
    · rw [Gnuais.deliver, hrun]
      simp only [Option.bind_eq_bind, Option.bind_some, hrest]
      rfl
    · rw [hlength, htaps] at houts'
      rw [List.map_append, List.flatten_cons, outputs_append, houts, houts']

variable (ofShort)

/-- Steps of `numCh` from the channel on read its samples. -/
theorem channelOf_frames {numCh chOfs : ℕ} (hch : chOfs < numCh)
    (frames : List (Vector Int16 numCh)) (k : ℕ) :
    channelOf (frames.flatMap Vector.toList) chOfs (k * (numCh : ℤ)) =
      (frames.map fun frame => frame[chOfs])[k]? := by
  have hpos : (chOfs : ℤ) + k * numCh = ((chOfs + k * numCh : ℕ) : ℤ) := by
    push_cast
    rfl
  have hdiv : (chOfs + k * numCh) / numCh = k := by
    rw [Nat.add_mul_div_right _ _ (by omega), Nat.div_eq_of_lt hch, Nat.zero_add]
  have hmod : (chOfs + k * numCh) % numCh = chOfs := by
    rw [Nat.add_mul_mod_self_right, Nat.mod_eq_of_lt hch]
  have hblocks := Bits.getElem?_flatMap_blocks (f := Vector.toList)
    (fun _ : Vector Int16 numCh => Vector.length_toList) (by omega) frames (chOfs + k * numCh)
  rw [channelOf, hpos, if_pos (Int.natCast_nonneg _), Int.toNat_natCast, hblocks, hdiv, hmod,
    List.getElem?_map]
  cases frames[k]? with
  | none => rfl
  | some frame =>
    rw [Option.bind_some, Option.map_some, Vector.getElem?_toList, Vector.getElem?_eq_getElem hch]

/-- A buffer of frames answers as the window on the samples of the channel
does. -/
theorem Filter.Holds.receiverFilter {numCh chOfs : ℕ} (hch : chOfs < numCh) {f : Filter α}
    {w : List α} (h : f.Holds w) (frames : List (Vector Int16 numCh))
    (hlen : frames.length ≤ filteredLen) :
    ∃ f' filtered maxval,
      Gnuais.receiverFilter ofShort numCh chOfs (frames.flatMap Vector.toList) frames.length f =
        some (f', filtered, maxval) ∧
      f'.length = f.length ∧ f'.taps = f.taps ∧
      f'.Holds ((frames.map fun frame => ofShort frame[chOfs]).foldl slide w) ∧
      filtered.map some = outputs (fun w => filterMac w f.taps f.length) w
        (frames.map fun frame => ofShort frame[chOfs]) := by
  have hinput : ∀ k < (frames.map fun frame => frame[chOfs]).length,
      channelOf (frames.flatMap Vector.toList) chOfs (k * (numCh : ℤ)) =
        (frames.map fun frame => frame[chOfs])[k]? :=
    fun k _ => channelOf_frames hch frames k
  obtain ⟨f', filtered, maxval, hrun, hlength, htaps, hholds, houts⟩ := h.runBuf ofShort hinput
  rw [List.map_map] at hholds houts
  rw [List.length_map] at hrun
  refine ⟨f', filtered, maxval, ?_, hlength, htaps, hholds, houts⟩
  rw [Gnuais.receiverFilter, if_neg (Nat.not_lt.mpr hlen), hrun]

/-- So do all buffers of a channel. -/
theorem Filter.Holds.receiverFilters {numCh chOfs : ℕ} (hch : chOfs < numCh)
    {chunks : List (List (Vector Int16 numCh))} :
    ∀ {f : Filter α} {w : List α}, f.Holds w → (∀ c ∈ chunks, c.length ≤ filteredLen) →
      ∃ f' filtered, Gnuais.receiverFilters ofShort chOfs chunks f = some (f', filtered) ∧
        filtered.map some = outputs (fun w => filterMac w f.taps f.length) w
          (chunks.flatten.map fun frame => ofShort frame[chOfs]) := by
  induction chunks with
  | nil => exact fun h _ => ⟨_, [], rfl, rfl⟩
  | cons frames chunks ih =>
    intro f w h hlen
    obtain ⟨f', filtered, maxval, hrun, hlength, htaps, hholds, houts⟩ :=
      h.receiverFilter ofShort hch frames (hlen frames (List.mem_cons_self ..))
    obtain ⟨f'', filtered', hrest, houts'⟩ :=
      ih hholds fun c hc => hlen c (List.mem_cons_of_mem _ hc)
    refine ⟨f'', filtered ++ filtered', ?_, ?_⟩
    · rw [Gnuais.receiverFilters, hrun]
      simp only [Option.bind_eq_bind, Option.bind_some, hrest]
      rfl
    · rw [hlength, htaps] at houts'
      rw [List.map_append, List.flatten_cons, List.map_append, outputs_append, houts, houts']

/-- A filter of length `len` gives for the `n`-th sample of its stream the sum over the
`len` samples before it, zeroes before the start, whatever calls deliver the stream. What
`receiver_run` filters is the stream of its channel, however the sound is cut into buffers
and whatever the other channels have. Nothing is asked of the arithmetic, as the sums are
taken in the same order in both. -/
theorem fir_chunking (len : ℕ) (taps : List α) (htaps : len ≤ taps.length)
    (hhalf : len ≤ bufferLen / 2) : ∃ f, filterInit len taps = some f ∧
    (∀ (ds : List (Delivery α)) (xss : List (List α)),
      ds.mapM (Delivery.samples ofShort) = some xss →
      ∃ f' outs, deliver ofShort ds f = some (f', outs) ∧
        outs.map some = (List.range xss.flatten.length).map fun n =>
          filterMac (before 0 len xss.flatten n) (taps.take len) len) ∧
    ∀ (numCh chOfs : ℕ) (_ : chOfs < numCh) (chunks : List (List (Vector Int16 numCh))),
      (∀ c ∈ chunks, c.length ≤ filteredLen) →
      ∃ f' filtered, receiverFilters ofShort chOfs chunks f = some (f', filtered) ∧
        filtered.map some = (List.range chunks.flatten.length).map fun n =>
          filterMac (before 0 len (chunks.flatten.map fun frame => ofShort frame[chOfs]) n)
            (taps.take len) len := by
  obtain ⟨f, hinit, hlength, hftaps, hholds⟩ := filterInit_holds htaps hhalf
  refine ⟨f, hinit, ?_, ?_⟩
  · intro ds xss hsamples
    obtain ⟨f', outs, hrun, houts⟩ := hholds.deliver hsamples
    rw [hlength, hftaps, outputs_eq] at houts
    exact ⟨f', outs, hrun, houts⟩
  · intro numCh chOfs hch chunks hlen
    obtain ⟨f', filtered, hrun, houts⟩ := hholds.receiverFilters ofShort hch hlen
    rw [hlength, hftaps, outputs_eq, List.length_map] at houts
    exact ⟨f', filtered, hrun, houts⟩

end Calls

/-- Three samples, one alone and two from the second channel of a buffer. -/
theorem fir_chunking_two : ∃ f, filterInit 2 [(3 : ℤ), 5] = some f ∧
    ∃ f' outs, deliver Int16.toInt [.one 7, .buf (channelOf [1, 11, 2, 13] 1) 2 2] f =
        some (f', outs) ∧
      outs.map some = [some 0, some 35, some 76] := by
  obtain ⟨f, hinit, hdeliver, -⟩ := fir_chunking Int16.toInt 2 [(3 : ℤ), 5] (by decide) (by decide)
  obtain ⟨f', outs, hrun, houts⟩ :=
    hdeliver [.one 7, .buf (channelOf [1, 11, 2, 13] 1) 2 2] [[7], [11, 13]] (by decide)
  exact ⟨f, hinit, f', outs, hrun, houts.trans (by decide)⟩

/-! ## The filter in the receiver

`receiver_run` filters a buffer and then runs over what it got. Only the sign of each
value is looked at. -/

section Receiver

variable [Zero α] [Add α] [Mul α] (ofShort : Int16 → α) (positive : α → Bool) (cfg : Config)
  (clock : ℕ → ℤ)

/-- `receiver_run` with its filter: of the filtered samples only the sign counts.
The level meter, which looks at the peak volume, is left out. -/
def soundRun (numCh chOfs : ℕ) (buf : List Int16) (len : ℕ) (f : Filter α) (rx : Receiver) :
    Option (Filter α × Receiver × List Bool × List Call) := do
  let (f, filtered, _) ← receiverFilter ofShort numCh chOfs buf len f
  let (rx, bits, calls) ← receiverLoop cfg clock (filtered.map positive) rx
  return (f, rx, bits, calls)

/-- Buffers of a sound input one after the other. -/
def soundRuns {numCh : ℕ} (chOfs : ℕ) :
    List (List (Vector Int16 numCh)) → Filter α → Receiver →
      Option (Filter α × Receiver × List Bool × List Call)
  | [], f, rx => some (f, rx, [], [])
  | frames :: rest, f, rx => do
    let (f, rx, bits, calls) ← soundRun ofShort positive cfg clock numCh chOfs
      (frames.flatMap Vector.toList) frames.length f rx
    let (f, rx, bits', calls') ← soundRuns chOfs rest f rx
    return (f, rx, bits ++ bits', calls ++ calls')

/-- The loop runs over what the buffers are filtered to, in one. -/
theorem soundRuns_eq {numCh chOfs : ℕ} {chunks : List (List (Vector Int16 numCh))} :
    ∀ {f f' : Filter α} {filtered : List α},
      receiverFilters ofShort chOfs chunks f = some (f', filtered) → ∀ rx : Receiver,
        soundRuns ofShort positive cfg clock chOfs chunks f rx =
          (receiverLoop cfg clock (filtered.map positive) rx).map fun r => (f', r) := by
  induction chunks with
  | nil =>
    intro f f' filtered hfilters rx
    obtain ⟨rfl, rfl⟩ := Prod.mk.inj (Option.some.inj hfilters)
    rfl
  | cons frames chunks ih =>
    intro f f' filtered hfilters rx
    rw [receiverFilters] at hfilters
    simp only [Option.bind_eq_bind, Option.bind_eq_some_iff] at hfilters
    obtain ⟨⟨f₁, filtered₁, maxval⟩, hfirst, ⟨f₂, filtered₂⟩, hrest, heq⟩ := hfilters
    obtain ⟨rfl, rfl⟩ := Prod.mk.inj (Option.some.inj heq)
    rw [soundRuns, soundRun, hfirst, List.map_append, receiverLoop_append]
    simp only [Option.bind_eq_bind, Option.bind_some]
    cases receiverLoop cfg clock (filtered₁.map positive) rx with
    | none => rfl
    | some r =>
      simp only [Option.bind_some, Option.pure_def, ih hrest]
      cases receiverLoop cfg clock (filtered₂.map positive) r.1 <;> rfl

end Receiver

end Gnuais
