import Mathlib.Data.List.Basic

/-!
# Reading a text line by line

`fgets` reads a text in pieces: a piece ends behind a line feed, where the buffer is
full, or with the text.

* `pieces` — all pieces of a text.
* `pieces_lines` — those of lines that fit in the buffer.
-/

namespace Lines

variable {α : Type} [DecidableEq α] (feed : α) (size : ℕ)

/-! ## One piece

`fgets` stops behind the first line feed, or one character before the buffer is full, as
it puts a terminator behind what it read. -/

/-- How far `fgets(line, size, fp)` reads in a text that is long enough. -/
def pieceLength (text : List α) : ℕ := min (size - 1) ((text.takeWhile (· ≠ feed)).length + 1)

/-- What `fgets` reads of a text, and what is left of it. -/
def fgets (text : List α) : List α × List α :=
  (text.take (pieceLength feed size text), text.drop (pieceLength feed size text))

variable {size}

/-- A buffer for one character at least gets one. -/
theorem length_fgets_lt (hsize : 2 ≤ size) {text : List α} (hne : text ≠ []) :
    (fgets feed size text).2.length < text.length := by
  have hpos : 0 < text.length := List.length_pos_iff.mpr hne
  rw [fgets, List.length_drop, pieceLength]
  omega

variable {feed}

/-- A line that fits in the buffer is read up to its end. -/
theorem fgets_line {line : List α} (hline : feed ∉ line) (hlen : line.length + 2 ≤ size)
    (rest : List α) : fgets feed size (line ++ feed :: rest) = (line ++ [feed], rest) := by
  have hword : ∀ c ∈ line, decide (c ≠ feed) = true := fun c hc =>
    decide_eq_true fun h => hline (h ▸ hc)
  have hend : (feed :: rest).takeWhile (fun c => decide (c ≠ feed)) = [] :=
    List.takeWhile_cons_of_neg fun h => of_decide_eq_true h rfl
  have hpiece : pieceLength feed size (line ++ feed :: rest) = (line ++ [feed]).length := by
    rw [pieceLength, List.takeWhile_append_of_pos hword, hend, List.append_nil,
      List.length_append, List.length_singleton]
    omega
  rw [fgets, hpiece, List.append_cons line feed rest, List.take_left, List.drop_left]

/-! ## The pieces of a text

A text is read with calls until nothing is left. -/

variable (feed size)

/-- The pieces, at most `reads`. -/
def piecesLoop : ℕ → List α → List (List α)
  | 0, _ => []
  | reads + 1, text =>
    if text = [] then []
    else (fgets feed size text).1 :: piecesLoop reads (fgets feed size text).2

/-- All pieces: each has a character at least. -/
def pieces (text : List α) : List (List α) := piecesLoop feed size text.length text

/-- Of nothing there are no pieces. -/
theorem piecesLoop_nil (reads : ℕ) : piecesLoop feed size reads ([] : List α) = [] := by
  cases reads with
  | zero => rfl
  | succ reads => exact if_pos rfl

variable {size}

/-- More reads than characters make no difference. -/
theorem piecesLoop_eq (hsize : 2 ≤ size) {reads reads' : ℕ} {text : List α}
    (h : text.length ≤ reads) (h' : text.length ≤ reads') :
    piecesLoop feed size reads text = piecesLoop feed size reads' text := by
  induction reads generalizing reads' text with
  | zero =>
    rw [List.length_eq_zero_iff.mp (Nat.le_zero.mp h), piecesLoop_nil, piecesLoop_nil]
  | succ reads ih =>
    by_cases hne : text = []
    · rw [hne, piecesLoop_nil, piecesLoop_nil]
    · cases reads' with
      | zero => exact absurd (List.length_eq_zero_iff.mp (Nat.le_zero.mp h')) hne
      | succ reads' =>
        have hlt := length_fgets_lt feed hsize hne
        have hrest : piecesLoop feed size reads (fgets feed size text).2 =
            piecesLoop feed size reads' (fgets feed size text).2 := ih (by omega) (by omega)
        rw [piecesLoop, piecesLoop, if_neg hne, if_neg hne, hrest]

/-- The first piece, and those of the rest. -/
theorem pieces_cons (hsize : 2 ≤ size) {text : List α} (hne : text ≠ []) :
    pieces feed size text =
      (fgets feed size text).1 :: pieces feed size (fgets feed size text).2 := by
  have hlt := length_fgets_lt feed hsize hne
  rw [pieces, piecesLoop_eq feed hsize (Nat.le_refl _) (Nat.le_succ _), piecesLoop, if_neg hne,
    piecesLoop_eq feed hsize (Nat.le_of_lt hlt) (Nat.le_refl _), ← pieces]

/-- Lines that fit in the buffer are the pieces of their text. -/
theorem pieces_lines {lines : List (List α)}
    (hlines : ∀ line ∈ lines, feed ∉ line ∧ line.length + 2 ≤ size) :
    pieces feed size (lines.flatMap (· ++ [feed])) = lines.map (· ++ [feed]) := by
  induction lines with
  | nil => rfl
  | cons line lines ih =>
    obtain ⟨⟨hfeed, hlen⟩, hlines⟩ := List.forall_mem_cons.mp hlines
    have hsplit : (line :: lines).flatMap (· ++ [feed]) =
        line ++ feed :: lines.flatMap (· ++ [feed]) := by
      rw [List.flatMap_cons, List.append_assoc, List.singleton_append]
    have hne : line ++ feed :: lines.flatMap (· ++ [feed]) ≠ [] :=
      List.append_ne_nil_of_right_ne_nil _ (List.cons_ne_nil _ _)
    rw [hsplit, pieces_cons feed (by omega) hne, fgets_line hfeed hlen, ih hlines, List.map_cons]

end Lines
