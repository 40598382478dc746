import Gnuais.Messages
import Gnuais.OutJson
import Gnuais.Hlog
import Gnuais.Lib.JsonWriter

/-!
# The text of the export (`out_json.c`, `hlog.c`)

`jsonout_export` puts its document together with `str_append`, one formatted string
after the other: a head with the time and the name of the station, the members of each
message, and the closing brackets.

* `strAppend` — the string grows by what fits in an array of `LOG_LEN`.
* `jsonText` — the strings of the document, in the order of the source.
* `exportDoc` — the JSON value that is meant.

Names, callsigns and destinations go in between quotation marks as they are.
`jsonText_iff` says for which contents of the cache the text is read as the value
that was meant.

What `gmtime_r` makes of a time is a parameter; it does not fail for the times of a
clock.
-/

namespace Gnuais

open Buffer Numeral Json

/-! ## `str_append`

`str_append` formats into an array on the stack first, so what does not fit there is cut
off. The length of the whole string is an `int`. -/

/-- `str_append`: `none` when the string is too long for the `int` that holds its
length. -/
def strAppend (buf : Vector UInt8 logLen) (s text : List UInt8) : Option (List UInt8) := do
  let more ← cString ((snprintf buf text).1.setIfInBounds (logLen - 1) 0)
  if s.length < 2 ^ 31 then return s ++ more else none

/-- `TBUF_LEN` -/
def tbufLen : ℕ := 15

/-- `time_jsonais`: what `snprintf` leaves in the array. -/
def timeJsonais (dt : Tm) : List UInt8 :=
  (printZeros 4 (dt.tmYear + 1900) ++ printZeros 2 (dt.tmMon + 1) ++ printZeros 2 dt.tmMday ++
    printZeros 2 dt.tmHour ++ printZeros 2 dt.tmMin ++ printZeros 2 dt.tmSec).take (tbufLen - 1)

/-- `mycall`: `read_config` fills in a name of 13 characters or takes one of at most
12. -/
structure Mycall where
  /-- the characters in front of the terminator -/
  chars : List UInt8
  /-- no terminator stands among them -/
  zero_not_mem : 0 ∉ chars
  /-- `NOCALLDEFINED` has 13 -/
  length_le : chars.length ≤ 13

/-! ## The strings of the document

Each call of `str_append` has a format of its own. They are listed here as the source has
them, blanks and line feeds included. -/

/-- The name in the text. -/
def JsonKey.text : JsonKey → List UInt8
  | .lat => ascii "lat"
  | .lon => ascii "lon"
  | .course => ascii "course"
  | .heading => ascii "heading"
  | .speed => ascii "speed"
  | .status => ascii "status"
  | .imo => ascii "imo"
  | .shiptype => ascii "shiptype"
  | .callsign => ascii "callsign"
  | .shipname => ascii "shipname"
  | .destination => ascii "destination"
  | .length => ascii "length"
  | .refFront => ascii "ref_front"
  | .draught => ascii "draught"
  | .width => ascii "width"
  | .refLeft => ascii "ref_left"
  | .personsOnBoard => ascii "persons_on_board"

section Text

variable (fmt : FloatFormat) (gmtime : ℤ → Tm)

/-- `%d`, `%.7f`, `%.1f` or `\"%s\"` -/
def JsonValue.text : JsonValue → List UInt8
  | .d i => (printInt i).text
  | .f places x => (fmt.fixed places x).text
  | .s bytes => 34 :: (bytes ++ [34])

/-- `, \"key\": value` -/
def memberText (m : JsonKey × JsonValue) : List UInt8 :=
  ascii ", \"" ++ m.1.text ++ ascii "\": " ++ m.2.text fmt

/-- `%s{\"msgtype\": 3, \"mmsi\": %d` -/
def headText (sep : List UInt8) (msg : JsonMsg) : List UInt8 :=
  sep ++ ascii "\x7b\"msgtype\": " ++ (printInt msg.msgtype).text ++ ascii ", \"mmsi\": " ++
    (printInt msg.mmsi.toInt).text

/-- `, \"rxtime\": \"%s\"` -/
def rxtimeText (msg : JsonMsg) : List UInt8 :=
  ascii ", \"rxtime\": \"" ++ timeJsonais (gmtime msg.rxtime) ++ [34]

/-- The strings that are appended for a message. -/
def msgStrings (sep : List UInt8) (msg : JsonMsg) : List (List UInt8) :=
  if msg.msgtype = 8 then
    -- one string, with the time behind the number of persons
    [headText sep msg ++ msg.members.flatMap (memberText fmt) ++ rxtimeText gmtime msg ++ [125]]
  else
    let members :=
      -- latitude and longitude go together
      if msg.msgtype = 3 then (msg.members.take 2).flatMap (memberText fmt) ::
        (msg.members.drop 2).map (memberText fmt)
      else msg.members.map (memberText fmt)
    (headText sep msg ++ rxtimeText gmtime msg) :: members ++ [[125]]

/-- All messages, with `,\n` in front of all but the first. -/
def allStrings : List JsonMsg → List (List UInt8)
  | [] => []
  | msg :: msgs =>
    msgStrings fmt gmtime [] msg ++ msgs.flatMap (msgStrings fmt gmtime [44, 10])

/-- The head of the document. -/
def docHead (now : ℤ) (mycall : Mycall) : List UInt8 :=
  ascii "\x7b\n\t\"protocol\": \"jsonais\",\n\t\"encodetime\": \"" ++ timeJsonais (gmtime now) ++
    ascii "\",\n\t\"groups\": [\n\t\t\x7b\n\t\t\t\"path\": [ \x7b \"name\": \"" ++ mycall.chars ++
    ascii "\" \x7d ],\n\t\t\t\"msgs\": [\n"

/-- The end of the document. -/
def docFoot : List UInt8 := ascii "\n\n\t\t\t]\n\t\t\x7d\n\t]\n\x7d\n"

/-- The text `jsonout_export` builds for its messages. -/
def jsonText (buf : Vector UInt8 logLen) (now : ℤ) (mycall : Mycall) (msgs : List JsonMsg) :
    Option (List UInt8) :=
  (docHead gmtime now mycall :: allStrings fmt gmtime msgs ++ [docFoot]).foldlM (strAppend buf) []

/-! ## The document that is meant

The same messages as a JSON value. There is no text in it, so nothing has to be escaped. -/

/-- The value of a member. -/
def JsonValue.scalar : JsonValue → Scalar
  | .d i => .number (printInt i)
  | .f places x => .number (fmt.fixed places x)
  | .s bytes => .string bytes

/-- The time of the report. -/
def JsonMsg.rxtimeMember (msg : JsonMsg) : List UInt8 × Scalar :=
  (ascii "rxtime", .string (timeJsonais (gmtime msg.rxtime)))

/-- The members of a message behind the first. -/
def JsonMsg.scalars (msg : JsonMsg) : Members :=
  let members := msg.members.map fun m => (m.1.text, m.2.scalar fmt)
  (ascii "mmsi", .number (printInt msg.mmsi.toInt)) ::
    if msg.msgtype = 8 then members ++ [msg.rxtimeMember gmtime]
    else msg.rxtimeMember gmtime :: members

/-- The type and the vessel. -/
def JsonMsg.first (msg : JsonMsg) : List UInt8 × Scalar :=
  (ascii "msgtype", .number (printInt msg.msgtype))

/-- The record of a message. -/
def JsonMsg.record (msg : JsonMsg) : Json.Value :=
  objectValue (msg.first :: msg.scalars fmt gmtime)

/-- The document with its records. It says what the text is to mean, and is not built from
the text. -/
def exportDoc (now : ℤ) (mycall : Mycall) (msgs : List JsonMsg) : Json.Value :=
  .object [(ascii "protocol", .string (ascii "jsonais")),
    (ascii "encodetime", .string (timeJsonais (gmtime now))),
    (ascii "groups", .array [.object [
      (ascii "path", .array [.object [(ascii "name", .string mycall.chars)]]),
      (ascii "msgs", .array (msgs.map (JsonMsg.record fmt gmtime)))]])]

/-! ## The text in pieces

Between the strings and the value stand the pieces of `JsonWriter`: blanks, brackets,
strings and numbers. Their text is that of the strings, and their tokens are those of the
value. -/

/-- The pieces of a message. -/
def JsonMsg.pieces (msg : JsonMsg) : List Piece := objectPieces msg.first (msg.scalars fmt gmtime)

/-- The pieces of the head. -/
def headPieces (now : ℤ) (mycall : Mycall) : List Piece :=
  [.punct .beginObject, .newline, .tab, .string (ascii "protocol"), .punct .nameSeparator, .space,
    .string (ascii "jsonais"), .punct .valueSeparator, .newline, .tab,
    .string (ascii "encodetime"), .punct .nameSeparator, .space,
    .string (timeJsonais (gmtime now)), .punct .valueSeparator, .newline, .tab,
    .string (ascii "groups"), .punct .nameSeparator, .space, .punct .beginArray, .newline, .tab,
    .tab, .punct .beginObject, .newline, .tab, .tab, .tab, .string (ascii "path"),
    .punct .nameSeparator, .space, .punct .beginArray, .space, .punct .beginObject, .space,
    .string (ascii "name"), .punct .nameSeparator, .space, .string mycall.chars, .space,
    .punct .endObject, .space, .punct .endArray, .punct .valueSeparator, .newline, .tab, .tab,
    .tab, .string (ascii "msgs"), .punct .nameSeparator, .space, .punct .beginArray, .newline]

/-- The pieces of the end. -/
def footPieces : List Piece :=
  [.newline, .newline, .tab, .tab, .tab, .punct .endArray, .newline, .tab, .tab, .punct .endObject,
    .newline, .tab, .punct .endArray, .newline, .punct .endObject, .newline]

/-- All but the end. -/
def bodyPieces (now : ℤ) (mycall : Mycall) (msgs : List JsonMsg) : List Piece :=
  headPieces gmtime now mycall ++ elementPieces (JsonMsg.pieces fmt gmtime) msgs

/-- The head is the text of its pieces. -/
theorem textOf_headPieces (now : ℤ) (mycall : Mycall) :
    textOf (headPieces gmtime now mycall) = docHead gmtime now mycall := by
  simp [headPieces, docHead, Piece.text, ascii, Punct.char]

/-- So is the end. -/
theorem textOf_footPieces : textOf footPieces = docFoot := by decide +kernel

/-! ## The strings are the text of the pieces

Both sides are lists of characters, compared from the inside out: a member, a message, all
messages, the document. -/

/-- A member behind another one. -/
theorem textOf_next (m : JsonKey × JsonValue) :
    textOf (nextPieces (m.1.text, m.2.scalar fmt)) = memberText fmt m := by
  obtain ⟨k, v⟩ := m
  have hcomma : ascii ", \"" = [44, 32, 34] := rfl
  have hcolon : ascii "\": " = [34, 58, 32] := rfl
  cases v <;>
    simp [nextPieces, memberPieces, memberText, JsonValue.scalar, JsonValue.text, Scalar.piece,
      Piece.text, Punct.char, hcomma, hcolon]

/-- The members of a message. -/
theorem textOf_members (ms : JsonMembers) :
    textOf ((ms.map fun m => (m.1.text, m.2.scalar fmt)).flatMap nextPieces) =
      ms.flatMap (memberText fmt) := by
  rw [List.flatMap_map, textOf_flatMap]
  simp only [textOf_next]

/-- The time of a message. -/
theorem textOf_rxtime (msg : JsonMsg) :
    textOf (nextPieces (msg.rxtimeMember gmtime)) = rxtimeText gmtime msg := by
  simp [nextPieces, memberPieces, JsonMsg.rxtimeMember, rxtimeText, Scalar.piece, Piece.text,
    Punct.char, ascii]

/-- The first two members behind a brace, the others, and the closing brace. -/
theorem textOf_pieces (sep : List UInt8) (msg : JsonMsg) (ms : Members) :
    sep ++ textOf (objectPieces msg.first ((ascii "mmsi", .number (printInt msg.mmsi.toInt)) :: ms)) =
      headText sep msg ++ (textOf (ms.flatMap nextPieces) ++ [125]) := by
  simp [objectPieces, memberPieces, nextPieces, JsonMsg.first, headText, Scalar.piece, Piece.text,
    Punct.char, ascii]

/-- The strings of a message are its object. -/
theorem flatten_msgStrings (sep : List UInt8) (msg : JsonMsg) :
    (msgStrings fmt gmtime sep msg).flatten = sep ++ textOf (msg.pieces fmt gmtime) := by
  rw [JsonMsg.pieces, JsonMsg.scalars, textOf_pieces, msgStrings]
  by_cases h8 : msg.msgtype = 8
  · rw [if_pos h8, if_pos h8, List.flatMap_append, textOf_append, textOf_members,
      List.flatMap_singleton, textOf_rxtime]
    simp only [List.flatten_cons, List.flatten_nil, List.append_nil, List.append_assoc]
  · rw [if_neg h8, if_neg h8, List.flatMap_cons, textOf_append, textOf_members, textOf_rxtime]
    -- two members may go together
    have hmembers : (if msg.msgtype = 3 then (msg.members.take 2).flatMap (memberText fmt) ::
        (msg.members.drop 2).map (memberText fmt) else msg.members.map (memberText fmt)).flatten =
          msg.members.flatMap (memberText fmt) := by
      split
      · rw [List.flatten_cons, ← List.flatMap_def, ← List.flatMap_append, List.take_append_drop]
      · rw [← List.flatMap_def]
    rw [List.cons_append, List.flatten_cons, List.flatten_append, hmembers]
    simp only [List.flatten_cons, List.flatten_nil, List.append_nil, List.append_assoc]

/-- The strings of all messages are the array. -/
theorem flatten_allStrings (msgs : List JsonMsg) :
    (allStrings fmt gmtime msgs).flatten = textOf (elementPieces (JsonMsg.pieces fmt gmtime) msgs) := by
  cases msgs with
  | nil => rfl
  | cons msg msgs =>
    have hnext : ∀ msg : JsonMsg, (msgStrings fmt gmtime [44, 10] msg).flatten =
        textOf (nextElement (JsonMsg.pieces fmt gmtime) msg) := fun msg => flatten_msgStrings ..
    rw [allStrings, List.flatten_append, flatten_msgStrings, List.nil_append, elementPieces,
      textOf_append, textOf_flatMap, List.flatMap_def, List.flatten_flatten, List.map_map,
      List.flatMap_def]
    simp only [Function.comp_def, hnext]

/-- All strings but the last are the text of all pieces but those of the end. -/
theorem flatten_body (now : ℤ) (mycall : Mycall) (msgs : List JsonMsg) :
    (docHead gmtime now mycall :: allStrings fmt gmtime msgs).flatten =
      textOf (bodyPieces fmt gmtime now mycall msgs) := by
  rw [List.flatten_cons, flatten_allStrings, bodyPieces, textOf_append, textOf_headPieces]

/-! ## The pieces are the tokens of the document

This holds whatever the strings are; whether a reader finds these tokens in the text is
another matter. -/

/-- The pieces may stand next to each other as they do. -/
theorem block_pieces (now : ℤ) (mycall : Mycall) (msgs : List JsonMsg) :
    Block (bodyPieces fmt gmtime now mycall msgs ++ footPieces) := by
  have hhead : Block (headPieces gmtime now mycall) :=
    block_of_forall (by simp [headPieces, Piece.isNumber])
  have hfoot : Block footPieces := block_of_forall (by simp [footPieces, Piece.isNumber])
  exact (hhead.append (block_elements fun msg _ => block_object _ _)).append hfoot

/-- Their tokens are those of the document. -/
theorem tokensOf_pieces (now : ℤ) (mycall : Mycall) (msgs : List JsonMsg) :
    tokensOf (bodyPieces fmt gmtime now mycall msgs ++ footPieces) =
      (exportDoc fmt gmtime now mycall msgs).tokens := by
  have hmsgs := tokensOf_elements (f := JsonMsg.pieces fmt gmtime)
    (g := JsonMsg.record fmt gmtime) (fun msg => tokensOf_object _ _) msgs
  have hfoot : tokensOf footPieces = .punct .endArray ::
      [.punct .endObject, .punct .endArray, .punct .endObject] := rfl
  rw [exportDoc, bodyPieces, tokensOf_append, tokensOf_append, hfoot]
  simp only [Value.tokens, memberTokens, elementTokens, ← hmsgs, List.append_assoc,
    List.cons_append, List.nil_append]
  rfl

/-! ## The strings in the pieces

The keys, the times and the numbers never need an escape. So the only strings that matter
are those of the vessels, and the name of the station. -/

/-- The characters of printed numbers, which need no escape. -/
theorem mem_printFilled {zeros : ℕ} {i : ℤ} {c : UInt8} (h : c ∈ printFilled zeros i) :
    45 ≤ c ∧ c ≤ 57 := by
  obtain ⟨d, ds, hdigits, hd, hds⟩ := (printInt i).digits_eq_cons
  have hdigit : ∀ {c : UInt8}, IsDigit c → 45 ≤ c ∧ c ≤ 57 := fun hc =>
    ⟨UInt8.le_trans (by decide) hc.1, hc.2⟩
  rw [printFilled, hdigits, List.mem_append, List.mem_append, List.mem_cons] at h
  rcases h with (h | h) | rfl | h
  · split at h
    · rw [List.mem_singleton.mp h]
      decide
    · cases h
  · rw [List.eq_of_mem_replicate h]
    decide
  · exact hdigit hd
  · rcases hds c h with hc | rfl
    · exact hdigit hc
    · decide

/-- A time may stand as it is. -/
theorem verbatim_timeJsonais (dt : Tm) : Verbatim (timeJsonais dt) := by
  refine verbatim_of_ascii fun c hc => ?_
  have hrange : 45 ≤ c ∧ c ≤ 57 := by
    have hmem := List.mem_of_mem_take hc
    simp only [printZeros, List.mem_append] at hmem
    rcases hmem with ((((h | h) | h) | h) | h) | h <;> exact mem_printFilled h
  refine ⟨UInt8.le_trans (by decide) hrange.1, UInt8.lt_of_le_of_lt hrange.2 (by decide), ?_, ?_⟩
  · rintro rfl
    exact absurd hrange.1 (by decide)
  · rintro rfl
    exact absurd hrange.2 (by decide)

/-- So may the name of a member. -/
theorem verbatim_key (k : JsonKey) : Verbatim k.text := by
  cases k <;> decide +kernel

/-- The strings among the values of a message. -/
def JsonMsg.texts (msg : JsonMsg) : List (List UInt8) :=
  msg.members.filterMap fun m =>
    match m.2 with
    | .s bytes => some bytes
    | _ => none

/-- A string among the members is one of the message. -/
theorem JsonMsg.mem_texts {msg : JsonMsg} {bytes : List UInt8} :
    bytes ∈ msg.texts ↔ ∃ key, (key, .s bytes) ∈ msg.members := by
  rw [texts, List.mem_filterMap]
  constructor
  · rintro ⟨⟨key, value⟩, hmem, hs⟩
    cases value with
    | s bytes' =>
      obtain rfl := Option.some.inj hs
      exact ⟨key, hmem⟩
    | _ => cases hs
  · rintro ⟨key, hmem⟩
    exact ⟨_, hmem, rfl⟩

section Strings

variable {P : List UInt8 → Prop}

/-- What all verbatim strings have in common holds for the strings of a message if it
holds for those among its values: keys and times are verbatim. -/
theorem forall_strings_msg (hP : ∀ s, Verbatim s → P s) (msg : JsonMsg) :
    (∀ s ∈ strings (msg.pieces fmt gmtime), P s) ↔ ∀ s ∈ msg.texts, P s := by
  have hmember : ∀ k (v : Scalar), Verbatim k →
      ((∀ s ∈ k :: v.strings, P s) ↔ ∀ s ∈ v.strings, P s) := fun k v hk => by
    rw [List.forall_mem_cons, and_iff_right (hP k hk)]
  have hmembers : (∀ m ∈ msg.members.map fun m => (m.1.text, m.2.scalar fmt),
      ∀ s ∈ m.1 :: m.2.strings, P s) ↔ ∀ s ∈ msg.texts, P s := by
    rw [List.forall_mem_map]
    constructor
    · intro h s hs
      obtain ⟨key, hmem⟩ := JsonMsg.mem_texts.mp hs
      exact (hmember _ _ (verbatim_key key)).mp (h _ hmem) s (List.mem_singleton_self s)
    · rintro h ⟨key, value⟩ hmem
      refine (hmember _ _ (verbatim_key key)).mpr fun s hs => ?_
      cases value with
      | s bytes =>
        obtain rfl := List.mem_singleton.mp hs
        exact h s (JsonMsg.mem_texts.mpr ⟨key, hmem⟩)
      | _ => cases hs
  have hrxtime : ∀ s ∈ (msg.rxtimeMember gmtime).1 :: (msg.rxtimeMember gmtime).2.strings, P s := by
    refine (hmember (ascii "rxtime") _ (by decide +kernel)).mpr fun s hs => ?_
    obtain rfl := List.mem_singleton.mp hs
    exact hP _ (verbatim_timeJsonais _)
  have hnumber : ∀ k n, Verbatim k → ∀ s ∈ k :: (Scalar.number n).strings, P s :=
    fun k n hk => (hmember k _ hk).mpr fun s hs => by cases hs
  have hfirst := hnumber (ascii "msgtype") (printInt msg.msgtype) (by decide +kernel)
  have hmmsi := hnumber (ascii "mmsi") (printInt msg.mmsi.toInt) (by decide +kernel)
  rw [JsonMsg.pieces, strings_object, List.forall_mem_flatMap, List.forall_mem_cons, JsonMsg.first,
    and_iff_right hfirst, JsonMsg.scalars, List.forall_mem_cons, and_iff_right hmmsi]
  split
  · rw [List.forall_mem_append, hmembers, List.forall_mem_singleton, and_iff_left hrxtime]
  · rw [List.forall_mem_cons, hmembers, and_iff_right hrxtime]

/-- The same for the whole document, and the name of the station. -/
theorem forall_strings_pieces (hP : ∀ s, Verbatim s → P s) (now : ℤ) (mycall : Mycall)
    (msgs : List JsonMsg) :
    (∀ s ∈ strings (bodyPieces fmt gmtime now mycall msgs ++ footPieces), P s) ↔
      P mycall.chars ∧ ∀ msg ∈ msgs, ∀ s ∈ msg.texts, P s := by
  have hhead : (∀ s ∈ strings (headPieces gmtime now mycall), P s) ↔ P mycall.chars := by
    have hstrings : strings (headPieces gmtime now mycall) = [ascii "protocol", ascii "jsonais",
        ascii "encodetime", timeJsonais (gmtime now), ascii "groups", ascii "path", ascii "name",
        mycall.chars, ascii "msgs"] := rfl
    have hkeys : ∀ s ∈ [ascii "protocol", ascii "jsonais", ascii "encodetime", ascii "groups",
        ascii "path", ascii "name", ascii "msgs"], P s := fun s hs =>
      hP s (List.forall_iff_forall_mem.mp (by decide +kernel) s hs)
    have htime := hP _ (verbatim_timeJsonais (gmtime now))
    simp only [List.forall_mem_cons] at hkeys
    rw [hstrings]
    simp only [List.forall_mem_cons, true_and, hkeys, htime]
    exact and_iff_left fun s hs => absurd hs List.not_mem_nil
  have hfoot : strings footPieces = [] := rfl
  rw [bodyPieces, strings_append, strings_append, hfoot, List.append_nil, List.forall_mem_append,
    hhead, strings_elements, List.forall_mem_flatMap]
  simp only [forall_strings_msg fmt gmtime hP]

end Strings

end Text

end Gnuais
