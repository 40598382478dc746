import Gnuais.CfgFile
import Mathlib.Data.List.Forall2

/-!
# Taking a line apart where it stands

`parse_string` stores behind the place it reads from, and `parse_args` stores only in
front of the place it goes on from, so neither reads back what it has stored: the
arguments are those of the line as it was (`parseArgs_tokens`), and cutting one
argument leaves the ones before it alone.
-/

namespace Gnuais

open Buffer CString

/-! ## One turn of `parse_string`

What a turn reads, without memory. -/

/-- An escape is no longer than the rest of the string. -/
theorem parseEscape_used {s : List UInt8} {num : UInt8} {used : ℕ}
    (h : parseEscape s = some (num, used)) : used ≤ s.length := by
  cases s with
  | nil => cases h
  | cons c s =>
    have hone : 1 ≤ (c :: s).length := Nat.succ_le_succ (Nat.zero_le _)
    rw [parseEscape] at h
    split at h
    · obtain ⟨-, rfl⟩ := Prod.mk.inj (Option.some.inj h)
      exact hone
    · split_ifs at h
      · obtain ⟨-, rfl⟩ := Prod.mk.inj (Option.some.inj h)
        exact scan_used_le 16 _
      · obtain ⟨-, rfl⟩ := Prod.mk.inj (Option.some.inj h)
        exact scan_used_le 8 _
      · obtain ⟨-, rfl⟩ := Prod.mk.inj (Option.some.inj h)
        exact hone

/-- A turn reads a character at least, and not beyond the end. -/
theorem readChar_used {s : List UInt8} {num : UInt8} {used : ℕ}
    (h : readChar s = some (num, used)) : 1 ≤ used ∧ used ≤ s.length := by
  cases s with
  | nil => cases h
  | cons c s =>
    rw [readChar] at h
    split at h
    · obtain ⟨⟨num', used'⟩, hescape, heq⟩ := Option.map_eq_some_iff.mp h
      obtain ⟨-, rfl⟩ := Prod.mk.inj heq
      exact ⟨Nat.succ_le_succ (Nat.zero_le _), Nat.succ_le_succ (parseEscape_used hescape)⟩
    · obtain ⟨-, rfl⟩ := Prod.mk.inj (Option.some.inj h)
      exact ⟨Nat.le_refl 1, Nat.succ_le_succ (Nat.zero_le _)⟩

/-- More turns than there are characters make no difference. -/
theorem unescapeLoop_eq {turns turns' : ℕ} {s : List UInt8} (h : s.length < turns)
    (h' : s.length < turns') : unescapeLoop turns s = unescapeLoop turns' s := by
  induction turns generalizing turns' s with
  | zero => exact absurd h (Nat.not_lt_zero _)
  | succ turns ih =>
    cases turns' with
    | zero => exact absurd h' (Nat.not_lt_zero _)
    | succ turns' =>
      rw [unescapeLoop, unescapeLoop]
      split
      · rfl
      · cases hread : readChar s with
        | none => rfl
        | some read =>
          obtain ⟨num, used⟩ := read
          obtain ⟨hpos, hle⟩ := readChar_used hread
          have hlen : (s.drop used).length = s.length - used := List.length_drop
          dsimp only
          rw [ih (by omega) (show (s.drop used).length < turns' by omega)]

/-- A turn of `unescapeLoop`: it ends, or stores a character and goes on. -/
theorem unescapeLoop_succ {turns : ℕ} {s chars : List UInt8} {used : ℕ}
    (h : unescapeLoop (turns + 1) s = some (chars, used)) :
    (AtEnd s ∧ chars = [] ∧ used = if s = [] then 0 else 1) ∨
      (¬ AtEnd s ∧ ∃ num took chars' more, readChar s = some (num, took) ∧
        unescapeLoop turns (s.drop took) = some (chars', more) ∧ chars = num :: chars' ∧
        used = took + more) := by
  rw [unescapeLoop] at h
  by_cases hend : AtEnd s
  · rw [if_pos hend] at h
    obtain ⟨rfl, rfl⟩ := Prod.mk.inj (Option.some.inj h)
    exact .inl ⟨hend, rfl, rfl⟩
  · rw [if_neg hend] at h
    cases hread : readChar s with
    | none =>
      rw [hread] at h
      cases h
    | some read =>
      obtain ⟨num, took⟩ := read
      rw [hread] at h
      obtain ⟨⟨chars', more⟩, hrest, heq⟩ := Option.map_eq_some_iff.mp h
      obtain ⟨rfl, rfl⟩ := Prod.mk.inj heq
      exact .inr ⟨hend, num, took, chars', more, rfl, hrest, rfl, rfl⟩

/-- What is stored is no longer than what is read, and shorter if a quote ends it. -/
theorem length_unescapeLoop {turns : ℕ} {s chars : List UInt8} {used : ℕ}
    (h : unescapeLoop turns s = some (chars, used)) :
    used ≤ s.length ∧ (chars.length < used ∨ (chars.length = used ∧ used = s.length)) := by
  induction turns generalizing s chars used with
  | zero => cases h
  | succ turns ih =>
    rcases unescapeLoop_succ h with ⟨hend, rfl, rfl⟩ |
      ⟨-, num, took, chars', more, hread, hrest, rfl, rfl⟩
    · by_cases hnil : s = []
      · rw [if_pos hnil, hnil]
        exact ⟨Nat.le_refl _, .inr ⟨rfl, rfl⟩⟩
      · rw [if_neg hnil]
        exact ⟨List.length_pos_iff.mpr hnil, .inl Nat.one_pos⟩
    · obtain ⟨hpos, hle⟩ := readChar_used hread
      obtain ⟨hmore, hshort⟩ := ih hrest
      rw [List.length_drop] at hmore hshort
      rw [List.length_cons]
      omega

/-- A character of the string, and what follows it. -/
theorem unescape_cons {s : List UInt8} (hend : ¬ AtEnd s) {num : UInt8} {took : ℕ}
    (hread : readChar s = some (num, took)) :
    unescape s = (unescape (s.drop took)).map fun (chars, more) => (num :: chars, took + more) := by
  obtain ⟨hpos, hle⟩ := readChar_used hread
  have hlen : (s.drop took).length < s.length := by
    rw [List.length_drop]
    omega
  rw [unescape, unescapeLoop, if_neg hend, hread, unescape,
    ← unescapeLoop_eq hlen (Nat.lt_succ_self (s.drop took).length)]

/-- The quote ends the string. -/
theorem unescape_quote (s : List UInt8) : unescape (34 :: s) = some ([], 1) := rfl

/-! ## `parse_string` in place

Between the two cursors lies a gap of characters that were read and are not needed any
more. A store goes into it, and the string at the read cursor stays as it was. -/

/-- A turn stores one character and reads some: what was read joins the gap between
the cursors, and the place stored to leaves it. -/
theorem put_gap (front gap s rest : List UInt8) (num : UInt8) {took : ℕ} (hpos : 1 ≤ took)
    (hle : took ≤ s.length) :
    ∃ gap', gap'.length + 1 = gap.length + took ∧
      (gap ++ (s ++ 0 :: rest)).tail = gap' ++ (s.drop took ++ 0 :: rest) ∧
      put (front ++ (gap ++ (s ++ 0 :: rest))) front.length num =
        some ((front ++ [num]) ++ (gap' ++ (s.drop took ++ 0 :: rest))) := by
  have hlen : (gap ++ s.take took).length = gap.length + took := by
    rw [List.length_append, List.length_take, Nat.min_eq_left hle]
  obtain ⟨x, gap', hcons⟩ : ∃ x gap', gap ++ s.take took = x :: gap' :=
    List.exists_cons_of_length_pos (by omega)
  have hsplit : gap ++ (s ++ 0 :: rest) = x :: (gap' ++ (s.drop took ++ 0 :: rest)) := by
    rw [← List.cons_append, ← hcons, List.append_assoc, ← List.append_assoc (s.take took),
      List.take_append_drop]
  refine ⟨gap', ?_, by rw [hsplit, List.tail_cons], ?_⟩
  · rw [← hlen, hcons, List.length_cons]
  · rw [hsplit, put_append, List.append_assoc, List.singleton_append]

section InPlace

variable {turns : ℕ} {s : List UInt8} (front gap rest : List UInt8) (hs : 0 ∉ s)

include hs

/-- The string at the read cursor. -/
theorem stringAt_gap :
    stringAt (front ++ (gap ++ (s ++ 0 :: rest))) (front.length + gap.length) = some s := by
  rw [← List.append_assoc, ← List.length_append]
  exact stringAt_append hs rest

/-- The loop stores what `unescapeLoop` makes of the string behind the write cursor:
`front` is what stands in front of the cursor, `gap` what was read already. -/
theorem parseStringLoop_some {chars : List UInt8} {used : ℕ}
    (h : unescapeLoop turns s = some (chars, used)) :
    parseStringLoop turns (front ++ (gap ++ (s ++ 0 :: rest))) (front.length + gap.length)
        front.length =
      some (front ++ (chars ++ 0 :: (gap ++ (s ++ 0 :: rest)).drop (chars.length + 1)),
        some (front.length + gap.length + used)) := by
  induction turns generalizing front gap s chars used with
  | zero => cases h
  | succ turns ih =>
    rw [parseStringLoop, stringAt_gap front gap rest hs]
    simp only [Option.bind_eq_bind, Option.bind_some]
    rcases unescapeLoop_succ h with ⟨hend, rfl, rfl⟩ |
      ⟨hend, num, took, chars', more, hread, hrest, rfl, rfl⟩
    · obtain ⟨x, xs, hcons⟩ : ∃ x xs, gap ++ (s ++ 0 :: rest) = x :: xs :=
        List.exists_cons_of_ne_nil (by simp)
      rw [if_pos hend, hcons, put_append, Option.bind_some]
      split <;> rfl
    · obtain ⟨hpos, hle⟩ := readChar_used hread
      obtain ⟨gap', hlen, htail, hput⟩ := put_gap front gap s rest num hpos hle
      have hnext := ih (front ++ [num]) gap' (fun hmem => hs (List.mem_of_mem_drop hmem)) hrest
      rw [List.length_append, List.length_singleton] at hnext
      rw [if_neg hend, hread]
      dsimp only
      rw [hput, Option.bind_some,
        show front.length + gap.length + took = front.length + 1 + gap'.length by omega, hnext,
        ← htail, List.length_cons, ← List.drop_one, List.drop_drop, List.append_assoc,
        List.singleton_append, List.cons_append, Nat.add_comm 1 (chars'.length + 1)]
      congr 3
      omega

/-- Where `unescapeLoop` meets a backslash at the end, the loop returns `NULL`. -/
theorem parseStringLoop_none (hturns : s.length < turns) (h : unescapeLoop turns s = none) :
    ∃ mem, parseStringLoop turns (front ++ (gap ++ (s ++ 0 :: rest)))
      (front.length + gap.length) front.length = some (mem, none) := by
  induction turns generalizing front gap s with
  | zero => exact absurd hturns (Nat.not_lt_zero _)
  | succ turns ih =>
    rw [parseStringLoop, stringAt_gap front gap rest hs]
    simp only [Option.bind_eq_bind, Option.bind_some]
    rw [unescapeLoop] at h
    by_cases hend : AtEnd s
    · rw [if_pos hend] at h
      cases h
    · rw [if_neg hend] at h ⊢
      cases hread : readChar s with
      | none => exact ⟨_, rfl⟩
      | some read =>
        obtain ⟨num, took⟩ := read
        obtain ⟨hpos, hle⟩ := readChar_used hread
        obtain ⟨gap', hlen, -, hput⟩ := put_gap front gap s rest num hpos hle
        rw [hread] at h
        have hshort : (s.drop took).length < turns := by
          rw [List.length_drop]
          omega
        obtain ⟨mem, hnext⟩ := ih (front ++ [num]) gap'
          (fun hmem => hs (List.mem_of_mem_drop hmem)) hshort (Option.map_eq_none_iff.mp h)
        rw [List.length_append, List.length_singleton] at hnext
        refine ⟨mem, ?_⟩
        dsimp only
        rw [hput, Option.bind_some,
          show front.length + gap.length + took = front.length + 1 + gap'.length by omega, hnext]

end InPlace

/-- `parse_string` on a string that stands behind `front`. -/
theorem parseString_eq (front : List UInt8) {s : List UInt8} (hs : 0 ∉ s) (rest : List UInt8) :
    match unescape s with
    | some (chars, used) => parseString (front ++ (s ++ 0 :: rest)) front.length =
        some (front ++ (chars ++ 0 :: (s ++ 0 :: rest).drop (chars.length + 1)),
          some (front.length + used))
    | none => ∃ mem, parseString (front ++ (s ++ 0 :: rest)) front.length = some (mem, none) := by
  have hturns : s.length < (front ++ (s ++ 0 :: rest)).length + 1 := by
    rw [List.length_append, List.length_append]
    omega
  have hsame := unescapeLoop_eq (Nat.lt_succ_self s.length) hturns
  rw [unescape, parseString, Nat.succ_eq_add_one] at *
  cases hrun : unescapeLoop (s.length + 1) s with
  | none => exact parseStringLoop_none front [] rest hs hturns (hsame.symm.trans hrun)
  | some result => exact parseStringLoop_some front [] rest hs (hsame.symm.trans hrun)

/-! ## `parse_args` in place

The function goes through the line from front to end. What lies behind the place it has
come to is still the line as it was. -/

/-- The pointer stands at the rest of a string. -/
theorem stringAt_rest (front : List UInt8) {s : List UInt8} (hs : 0 ∉ s) (rest : List UInt8) :
    stringAt (front ++ (s ++ 0 :: rest)) front.length = some s := stringAt_append hs rest

/-- At a terminator nothing is cut. -/
theorem cut_nil (front rest : List UInt8) :
    cut (front ++ 0 :: rest) front.length = some (front ++ 0 :: rest, front.length) := by
  have hstring := stringAt_rest front List.not_mem_nil rest
  rw [List.nil_append] at hstring
  rw [cut, hstring]
  rfl

/-- Any other character behind an argument is overwritten. -/
theorem cut_cons (front : List UInt8) {c : UInt8} {s : List UInt8} (hs : 0 ∉ c :: s)
    (rest : List UInt8) :
    cut (front ++ (c :: s ++ 0 :: rest)) front.length =
      some (front ++ [0] ++ (s ++ 0 :: rest), (front ++ [0]).length) := by
  rw [cut, stringAt_rest front hs rest]
  simp only [Option.bind_eq_bind, Option.bind_some]
  rw [if_neg (List.cons_ne_nil _ _), List.cons_append, put_append, List.append_assoc,
    List.length_append, List.length_singleton]
  rfl

/-- At the end of the line `argv` is done. -/
theorem parseArgsLoop_nil (left : ℕ) (front rest : List UInt8) (argv : List ℕ) :
    parseArgsLoop left (front ++ 0 :: rest) argv front.length =
      some (finishArgs (front ++ 0 :: rest) argv) := by
  cases left with
  | zero => rfl
  | succ left =>
    have hstring := stringAt_rest front List.not_mem_nil rest
    rw [List.nil_append] at hstring
    rw [parseArgsLoop, hstring]
    simp only [Option.bind_eq_bind, Option.bind_some, List.takeWhile_nil, List.length_nil,
      Nat.add_zero, hstring]
    rfl

/-- Pointers to some strings, each in front of the next one. -/
structure ArgPointers (mem : List UInt8) (ptrs : List ℕ) (args : List (List UInt8)) : Prop where
  /-- each points to its string -/
  strings : List.Forall₂ (fun pos arg => stringAt mem pos = some arg) ptrs args
  /-- and no string reaches into the next -/
  apart : (ptrs.zip args).Pairwise fun x y => x.1 + x.2.length < y.1

/-- `argv` gets a pointer for each of `args`, and what stands in front of the place
`parse_args` goes on from stays. -/
def Parses (result : Option ParsedArgs) (front : List UInt8) (argv : List ℕ) :
    Option (List (List UInt8)) → Prop
  | none => ∃ r, result = some r ∧ r.argc = 0
  | some args => ∃ back ptrs, result = some (finishArgs (front ++ back) (argv ++ ptrs)) ∧
      ArgPointers (front ++ back) ptrs args ∧ ∀ pos ∈ ptrs, front.length ≤ pos

/-- One more argument, which stands in the front part. -/
theorem Parses.cons {result : Option ParsedArgs} {front more : List UInt8} {argv : List ℕ}
    {pos : ℕ} {arg : List UInt8} (hpos : front.length ≤ pos)
    (harg : stringAt (front ++ more) pos = some arg) {args : Option (List (List UInt8))}
    (h : Parses result (front ++ more) (argv ++ [pos]) args) :
    Parses result front argv (args.map (arg :: ·)) := by
  cases args with
  | none => exact h
  | some args =>
    obtain ⟨back, ptrs, hresult, ⟨hstrings, hapart⟩, hptrs⟩ := h
    rw [List.append_assoc, List.append_assoc] at hresult
    refine ⟨more ++ back, pos :: ptrs, hresult, ⟨.cons ?_ ?_, .cons ?_ hapart⟩, ?_⟩
    · rw [← List.append_assoc]
      exact stringAt_front harg back
    · rw [← List.append_assoc]
      exact hstrings
    · exact fun next hnext =>
        Nat.lt_of_lt_of_le (stringAt_lt harg) (hptrs _ (List.of_mem_zip hnext).1)
    · refine List.forall_mem_cons.mpr ⟨hpos, fun next hnext => ?_⟩
      have hle := hptrs next hnext
      rw [List.length_append] at hle
      omega

/-- The end of the line. -/
theorem tokens_nil {left : ℕ} {line : List UInt8} (h : line.dropWhile isspace = []) :
    tokens (left + 1) line = some [] := by
  rw [tokens, h]

/-- An argument in quotes. -/
theorem tokens_quote {left : ℕ} {line s : List UInt8} (h : line.dropWhile isspace = 34 :: s) :
    tokens (left + 1) line = (unescape s).bind fun (chars, used) =>
      (tokens left (s.drop (used + 1))).map (chars.takeWhile (· ≠ 0) :: ·) := by
  rw [tokens, h]
  rfl

/-- An argument without quotes. -/
theorem tokens_word {left : ℕ} {line s : List UInt8} {c : UInt8} (hc : c ≠ 34)
    (h : line.dropWhile isspace = c :: s) :
    tokens (left + 1) line =
      (tokens left (((c :: s).dropWhile fun c => !isspace c).drop 1)).map
        ((c :: s).takeWhile (fun c => !isspace c) :: ·) := by
  rw [tokens, h]
  exact if_neg hc

/-- What `parse_string` leaves of a quoted argument, and the rest of the line behind
it. -/
theorem unescape_stored {s chars : List UInt8} {used : ℕ} (h : unescape s = some (chars, used))
    (rest : List UInt8) :
    ∃ stored, stored.length = used ∧
      chars ++ 0 :: (s ++ 0 :: rest).drop (chars.length + 1) =
        stored ++ (s.drop used ++ 0 :: rest) ∧
      ∀ rest, cStringList (stored ++ 0 :: rest) = some (chars.takeWhile (· ≠ 0)) := by
  obtain ⟨hle, hshort | ⟨hlen, hused⟩⟩ := length_unescapeLoop h
  · refine ⟨chars ++ 0 :: (s.take used).drop (chars.length + 1), ?_, ?_, fun rest => ?_⟩
    · rw [List.length_append, List.length_cons, List.length_drop, List.length_take]
      omega
    · rw [List.append_assoc, List.cons_append]
      conv_lhs => rw [← List.take_append_drop used s, List.append_assoc]
      rw [List.drop_append_of_le_length (by rw [List.length_take]; omega)]
    · rw [List.append_assoc, List.cons_append, cStringList_cut]
  -- without a quote the terminator of the line ends the argument
  · refine ⟨chars, hlen, ?_, fun rest => cStringList_cut chars rest⟩
    · have hall : (s ++ 0 :: rest).drop (s.length + 1) = rest := by
        rw [← List.singleton_append, ← List.append_assoc]
        exact List.drop_left' (by rw [List.length_append, List.length_singleton])
      rw [hlen, hused, hall, List.drop_length, List.nil_append]

theorem length_le_append (front more : List UInt8) : front.length ≤ (front ++ more).length :=
  (List.prefix_append front more).length_le

section Step

variable {left : ℕ} (rest : List UInt8)
  (ih : ∀ (front line : List UInt8) (argv : List ℕ), 0 ∉ line →
    Parses (parseArgsLoop left (front ++ (line ++ 0 :: rest)) argv front.length) front argv
      (tokens left line))
  (front more : List UInt8) {s : List UInt8} (argv : List ℕ)

include ih

/-- What follows an argument: the cut, and the arguments behind it. -/
theorem parses_cut (hs : 0 ∉ s) {pos : ℕ} (hpos : front.length ≤ pos) {arg : List UInt8}
    (harg : ∀ rest, stringAt (front ++ more ++ 0 :: rest) pos = some arg) :
    Parses ((cut (front ++ more ++ (s ++ 0 :: rest)) (front ++ more).length).bind fun next =>
        parseArgsLoop left next.1 (argv ++ [pos]) next.2)
      front argv ((tokens left (s.drop 1)).map (arg :: ·)) := by
  cases s with
  | nil =>
    have htokens : tokens left [] = some [] := by
      cases left <;> rfl
    rw [List.nil_append, cut_nil, Option.bind_some, parseArgsLoop_nil, List.drop_nil, htokens]
    refine ⟨more ++ 0 :: rest, [pos], by rw [List.append_assoc], ⟨.cons ?_ .nil, ?_⟩, ?_⟩
    · rw [← List.append_assoc]
      exact harg rest
    · exact List.pairwise_singleton _ _
    · exact fun _ hmem => List.mem_singleton.mp hmem ▸ hpos
  | cons c s =>
    have hline := ih (front ++ more ++ [0]) s (argv ++ [pos])
      fun hmem => hs (List.mem_cons_of_mem _ hmem)
    rw [cut_cons _ hs, Option.bind_some, List.drop_one, List.tail_cons]
    rw [List.append_assoc front more [0]] at hline ⊢
    refine hline.cons hpos ?_
    rw [← List.append_assoc]
    exact harg []

/-- An argument without quotes, behind what stands in `more`. -/
theorem parses_word (hs : 0 ∉ s) :
    Parses ((cut (front ++ more ++ (s ++ 0 :: rest))
        ((front ++ more).length + (s.takeWhile fun c => !isspace c).length)).bind fun next =>
        parseArgsLoop left next.1 (argv ++ [(front ++ more).length]) next.2)
      front argv ((tokens left ((s.dropWhile fun c => !isspace c).drop 1)).map
        (s.takeWhile (fun c => !isspace c) :: ·)) := by
  have hsplit : s = s.takeWhile (fun c => !isspace c) ++ s.dropWhile fun c => !isspace c :=
    List.takeWhile_append_dropWhile.symm
  have hword : 0 ∉ s.takeWhile fun c => !isspace c := fun hmem =>
    hs (by rw [hsplit]; exact List.mem_append_left _ hmem)
  have hbehind : 0 ∉ s.dropWhile fun c => !isspace c := fun hmem =>
    hs (by rw [hsplit]; exact List.mem_append_right _ hmem)
  have hmem : front ++ more ++ (s ++ 0 :: rest) =
      front ++ (more ++ s.takeWhile fun c => !isspace c) ++
        ((s.dropWhile fun c => !isspace c) ++ 0 :: rest) := by
    conv_lhs => rw [hsplit]
    simp only [List.append_assoc]
  have hcut := parses_cut rest ih front (more ++ s.takeWhile fun c => !isspace c) argv hbehind
    (length_le_append front more) fun rest => by
      rw [← List.append_assoc, List.append_assoc]
      exact stringAt_rest _ hword rest
  rw [hmem, ← List.length_append, List.append_assoc front more (s.takeWhile _)]
  exact hcut

/-- An argument behind a quote, which is the last of what stands in `more`. -/
theorem parses_quoted (hs : 0 ∉ s) :
    Parses ((parseString (front ++ more ++ (s ++ 0 :: rest)) (front ++ more).length).bind fun
        | (mem, none) => some ⟨mem, 0, (argv ++ [(front ++ more).length]).map some⟩
        | (mem, some after) => (cut mem after).bind fun next =>
          parseArgsLoop left next.1 (argv ++ [(front ++ more).length]) next.2)
      front argv ((unescape s).bind fun (chars, used) =>
        (tokens left (s.drop (used + 1))).map (chars.takeWhile (· ≠ 0) :: ·)) := by
  have hparse := parseString_eq (front ++ more) hs rest
  cases hrun : unescape s with
  | none =>
    rw [hrun] at hparse
    obtain ⟨mem, hnull⟩ := hparse
    rw [hnull]
    exact ⟨_, rfl, rfl⟩
  | some result =>
    obtain ⟨chars, used⟩ := result
    obtain ⟨stored, hused, hsame, hchars⟩ := unescape_stored hrun rest
    have hbehind : 0 ∉ s.drop used := fun hmem => hs (List.mem_of_mem_drop hmem)
    have hcut := parses_cut rest ih front (more ++ stored) argv hbehind
      (length_le_append front more) fun rest => by
        rw [← List.append_assoc, List.append_assoc, stringAt, List.drop_left]
        exact hchars rest
    have hmem : front ++ more ++ (stored ++ (s.drop used ++ 0 :: rest)) =
        front ++ (more ++ stored) ++ (s.drop used ++ 0 :: rest) := by
      simp only [List.append_assoc]
    have hlen : (front ++ more).length + used = (front ++ (more ++ stored)).length := by
      rw [← List.append_assoc, ← hused, ← List.length_append]
    rw [hrun] at hparse
    dsimp only at hparse
    rw [hsame, hmem, hlen] at hparse
    rw [hparse]
    rw [List.drop_drop] at hcut
    exact hcut

end Step

/-- The arguments of a line are cut out of it where it stands. -/
theorem parseArgsLoop_parses (left : ℕ) (rest : List UInt8) :
    ∀ (front line : List UInt8) (argv : List ℕ), 0 ∉ line →
      Parses (parseArgsLoop left (front ++ (line ++ 0 :: rest)) argv front.length) front argv
        (tokens left line) := by
  induction left with
  | zero =>
    intro front line argv _
    refine ⟨line ++ 0 :: rest, [], ?_, ⟨.nil, .nil⟩, fun _ h => nomatch h⟩
    rw [List.append_nil]
    rfl
  | succ left ih =>
    intro front line argv hline
    -- white space in front of the argument is skipped
    have hsplit : line = line.takeWhile isspace ++ line.dropWhile isspace :=
      List.takeWhile_append_dropWhile.symm
    have htext : 0 ∉ line.dropWhile isspace := fun hmem =>
      hline (by rw [hsplit]; exact List.mem_append_right _ hmem)
    have hmem : front ++ (line ++ 0 :: rest) =
        front ++ line.takeWhile isspace ++ (line.dropWhile isspace ++ 0 :: rest) := by
      conv_lhs => rw [hsplit]
      rw [List.append_assoc, List.append_assoc]
    have hstring := stringAt_rest (front ++ line.takeWhile isspace) htext rest
    rw [← hmem, List.length_append] at hstring
    rw [parseArgsLoop, stringAt_rest front hline rest]
    simp only [Option.bind_eq_bind, Option.bind_some, hstring]
    rw [hmem]
    generalize line.takeWhile isspace = blanks
    cases hdrop : line.dropWhile isspace with
    | nil =>
      rw [tokens_nil hdrop, if_pos rfl]
      refine ⟨blanks ++ 0 :: rest, [], ?_, ⟨.nil, .nil⟩, fun _ h => nomatch h⟩
      rw [List.append_nil, List.nil_append, List.append_assoc]
      rfl
    | cons c s =>
      rw [hdrop] at htext
      rw [if_neg (List.cons_ne_nil _ _)]
      by_cases hc : c = 34
      · subst hc
        have hs : 0 ∉ s := fun h => htext (List.mem_cons_of_mem _ h)
        have hquote : front ++ blanks ++ (34 :: s ++ 0 :: rest) =
            front ++ (blanks ++ [34]) ++ (s ++ 0 :: rest) := by
          simp only [List.append_assoc, List.cons_append, List.nil_append]
        have hlen : front.length + blanks.length + 1 = (front ++ (blanks ++ [34])).length := by
          rw [List.length_append, List.length_append, List.length_singleton, Nat.add_assoc]
        have hline := parses_quoted rest ih front (blanks ++ [34]) argv hs
        rw [tokens_quote hdrop, List.head?_cons, if_pos rfl, hquote, hlen]
        exact hline
      · have hline := parses_word rest ih front blanks argv htext
        rw [tokens_word hc hdrop, List.head?_cons, if_neg (fun h => hc (Option.some.inj h)),
          ← List.length_append]
        exact hline

/-- `argv` holds some arguments, and `NULL` behind them. -/
def ParsedArgs.Holds (r : ParsedArgs) (args : List (List UInt8)) : Prop :=
  r.argc = args.length ∧ (∀ i (h : i < args.length), r.arg i = some (some args[i])) ∧
    r.arg r.argc = some none

/-- `argv` with such pointers holds the strings. -/
theorem ArgPointers.holds {mem : List UInt8} {ptrs : List ℕ} {args : List (List UInt8)}
    (h : ArgPointers mem ptrs args) : (finishArgs mem ptrs).Holds args := by
  have hlen := h.strings.length_eq
  refine ⟨hlen, fun i hi => ?_, ?_⟩
  · have hi' : i < ptrs.length := hlen ▸ hi
    have hstring := h.strings.get hi' hi
    simp only [List.get_eq_getElem] at hstring
    rw [ParsedArgs.arg, finishArgs, List.getElem?_append_left (by rwa [List.length_map]),
      List.getElem?_map, List.getElem?_eq_getElem hi']
    dsimp only [Option.map_some]
    rw [hstring]
    rfl
  · rw [ParsedArgs.arg, finishArgs, List.getElem?_append_right (by rw [List.length_map]),
      List.length_map, Nat.sub_self]
    rfl

/-- `parse_args` finds the arguments of the line. -/
theorem parseArgs_tokens {line : List UInt8} (hline : 0 ∉ line) (rest : List UInt8) :
    match tokens 255 line with
    | some args => ∃ mem ptrs, parseArgs (line ++ 0 :: rest) = some (finishArgs mem ptrs) ∧
        ArgPointers mem ptrs args
    | none => ∃ r, parseArgs (line ++ 0 :: rest) = some r ∧ r.argc = 0 := by
  have hparses := parseArgsLoop_parses 255 rest [] line [] hline
  rw [List.nil_append, List.length_nil] at hparses
  cases htokens : tokens 255 line with
  | none =>
    rw [htokens] at hparses
    exact hparses
  | some args =>
    rw [htokens] at hparses
    obtain ⟨back, ptrs, hresult, hstored, -⟩ := hparses
    rw [List.nil_append, List.nil_append] at hresult
    exact ⟨_, _, hresult, hstored⟩

end Gnuais
