import Gnuais.JsonText
import Gnuais.Exported

/-!
# Exports that can be read (`out_json.c`)

What the message decoders have put into the cache is exported as a text. It is read as
the document that was meant if and only if no string needs an escape and the text is
short enough for the `int` that counts it (`jsonText_iff`).
-/

namespace Gnuais

open Buffer Bits Numeral Json

/-! ## Messages of decoded calls

What stands in an entry was written by some call, and what a decoder writes is six-bit
text. So the strings of the export are short and have no terminator and no control
character in them. -/

/-- A call of the cache that some message decoder makes. -/
def DecodedCall (call : CacheCall) : Prop :=
  ∃ (cfg : Config) (type bufferlen : ℕ) (rbuffer : Frame) (receivedT : ℤ) (mmsi : ℕ)
    (calls : List Call), messageCalls cfg type bufferlen rbuffer receivedT mmsi = some calls ∧
      .cache call ∈ calls

/-- The strings of an entry. -/
def CacheEnt.texts (e : CacheEnt) : List (List UInt8) :=
  e.callsign.toList ++ e.name.toList ++ e.destination.toList

/-- The strings that a call writes. -/
def CacheCall.texts : CacheCall → List (List UInt8)
  | .vesseldata _ _ _ callsign name destination _ _ _ _ _ _ => [callsign, name, destination]
  | .vesseldatab _ _ callsign _ _ _ _ _ => [callsign]
  | .vesselname _ _ name destination => [name, destination]
  | _ => []

/-- What the decoders let through: few members, and strings of the six-bit alphabet. These
bounds are what makes each string of the text fit the array it is formatted in. -/
structure JsonMsg.Sixbit (msg : JsonMsg) : Prop where
  /-- no message has more members than the static data -/
  length_le : msg.members.length ≤ 10
  /-- each is at most 20 characters of six bits -/
  texts : ∀ s ∈ msg.texts, SixbitText 20 s
  /-- `%.7f` is the longest conversion -/
  places_le : ∀ key places x, (key, .f places x) ∈ msg.members → places ≤ 7

/-- The strings of a decoder's call. -/
theorem DecodedCall.sixbit {call : CacheCall} (h : DecodedCall call) :
    ∀ s ∈ call.texts, SixbitText 20 s := by
  obtain ⟨cfg, type, bufferlen, rbuffer, receivedT, mmsi, calls, hcalls, hmem⟩ := h
  have hmessage := messageCalls_messageCall hcalls _ hmem
  have hmono : ∀ {s}, SixbitText 6 s → SixbitText 20 s := fun hs =>
    ⟨Nat.le_trans hs.1 (by decide), hs.2⟩
  cases hmessage with
  | cacheVesseldata _ _ _ _ _ _ _ _ _ hcallsign hname hdestination =>
    intro s hs
    simp only [CacheCall.texts, List.mem_cons, List.not_mem_nil, or_false] at hs
    rcases hs with rfl | rfl | rfl
    · exact hmono hcallsign
    · exact hname
    · exact hdestination
  | cacheVesseldatab _ _ _ _ _ _ _ hcallsign =>
    intro s hs
    rw [List.mem_singleton.mp hs]
    exact hmono hcallsign
  | cacheVesselname _ _ hname hdestination =>
    intro s hs
    simp only [CacheCall.texts, List.mem_cons, List.not_mem_nil, or_false] at hs
    rcases hs with rfl | rfl
    · exact hname
    · exact hdestination
  | _ => exact fun s hs => absurd hs List.not_mem_nil

/-- A string that a call gives to an entry is one that it writes. -/
theorem CacheCall.mem_texts (call : CacheCall) (s : List UInt8) :
    (call.gives .callsign = some (some s) → s ∈ call.texts) ∧
    (call.gives .name = some (some s) → s ∈ call.texts) ∧
    (call.gives .destination = some (some s) → s ∈ call.texts) := by
  cases call <;> simp [gives, texts] <;> tauto

section Entries

variable {calls : List CacheCall} {entries : List (SpKey × CacheEnt)}

/-- The strings of an entry were written by its calls. -/
theorem Snapshot.texts_sixbit (hs : Snapshot calls entries) (hcalls : ∀ call ∈ calls, DecodedCall call)
    {x : SpKey × CacheEnt} (hx : x ∈ entries) : ∀ s ∈ x.2.texts, SixbitText 20 s := by
  obtain ⟨call, -, hkey⟩ := (hs.keys x.1).mp (List.mem_map_of_mem hx)
  have hent : (call.mmsi.toUInt32, x.2) ∈ entries := by
    rw [hkey]
    exact hx
  -- a string that is there was given by a call
  have hgiven : ∀ (f : CacheField (Option (List UInt8))) s, f.get cacheEntInit = none →
      f.get x.2 = some s → ∃ call ∈ calls, call.gives f = some (some s) := by
    intro f s hinit hs'
    rcases Records.lastWrite_cases (fun call : CacheCall => call.gives f) (f.get cacheEntInit)
      (calls.filter fun c => c.mmsi = call.mmsi) with ⟨-, hlast⟩ | ⟨call', hmem, hlast⟩
    · rw [← hs.fields call.mmsi x.2 hent _ f, hinit, hs'] at hlast
      cases hlast
    · rw [← hs.fields call.mmsi x.2 hent _ f, hs'] at hlast
      exact ⟨call', (List.mem_filter.mp hmem).1, hlast⟩
  intro s hmem
  simp only [CacheEnt.texts, List.mem_append, Option.mem_toList] at hmem
  rcases hmem with (hmem | hmem) | hmem
  · obtain ⟨call', hcall', hgives⟩ := hgiven .callsign s rfl hmem
    exact (hcalls call' hcall').sixbit s ((call'.mem_texts s).1 hgives)
  · obtain ⟨call', hcall', hgives⟩ := hgiven .name s rfl hmem
    exact (hcalls call' hcall').sixbit s ((call'.mem_texts s).2.1 hgives)
  · obtain ⟨call', hcall', hgives⟩ := hgiven .destination s rfl hmem
    exact (hcalls call' hcall').sixbit s ((call'.mem_texts s).2.2 hgives)

/-- There are no strings in a position. -/
theorem texts_exportPosition {e : CacheEnt} {msg : JsonMsg} (hmsg : msg ∈ exportPosition e) :
    msg.texts = [] := by
  rw [exportPosition] at hmsg
  split at hmsg
  · rw [List.mem_singleton.mp hmsg, List.eq_nil_iff_forall_not_mem]
    intro s hs
    obtain ⟨key, hmem⟩ := JsonMsg.mem_texts.mp hs
    simp at hmem
  · exact absurd hmsg List.not_mem_nil

/-- Nor with the persons on board. -/
theorem texts_exportPersons {e : CacheEnt} {msg : JsonMsg} (hmsg : msg ∈ exportPersons e) :
    msg.texts = [] := by
  rw [exportPersons] at hmsg
  split at hmsg
  · rw [List.mem_singleton.mp hmsg]
    rfl
  · exact absurd hmsg List.not_mem_nil

/-- The strings among the static data are those of the entry. -/
theorem mem_dataMembers {e : CacheEnt} {s : List UInt8} :
    (∃ key, (key, JsonValue.s s) ∈ dataMembers e) ↔ s ∈ e.texts := by
  simp only [dataMembers, List.mem_append, mem_appendIf, mem_appendString, CacheEnt.texts,
    Option.mem_toList, Prod.mk.injEq, JsonValue.s.injEq, List.mem_cons, List.not_mem_nil, reduceCtorEq,
    and_false, or_false, false_or]
  constructor
  · rintro ⟨key, (⟨_, hs, -, rfl⟩ | ⟨_, hs, -, rfl⟩) | ⟨_, hs, -, rfl⟩⟩
    · exact .inl (.inl hs)
    · exact .inl (.inr hs)
    · exact .inr hs
  · rintro ((hs | hs) | hs)
    · exact ⟨.callsign, .inl (.inl ⟨s, hs, rfl, rfl⟩)⟩
    · exact ⟨.shipname, .inl (.inr ⟨s, hs, rfl, rfl⟩)⟩
    · exact ⟨.destination, .inr ⟨s, hs, rfl, rfl⟩⟩

/-- The strings of an entry with a name are in its message of type 5, and other messages
have none. -/
theorem forall_texts_exportEnt {P : List UInt8 → Prop} (e : CacheEnt) :
    (∀ msg ∈ exportEnt e, ∀ s ∈ msg.texts, P s) ↔
      (e.mmsi ≠ 0 → e.name.isSome → ∀ s ∈ e.texts, P s) := by
  have hposition : ∀ msg ∈ exportPosition e, ∀ s ∈ msg.texts, P s := fun msg hmsg => by
    rw [texts_exportPosition hmsg]
    exact fun s hs => absurd hs List.not_mem_nil
  have hpersons : ∀ msg ∈ exportPersons e, ∀ s ∈ msg.texts, P s := fun msg hmsg => by
    rw [texts_exportPersons hmsg]
    exact fun s hs => absurd hs List.not_mem_nil
  rw [exportEnt, List.forall_mem_append, List.forall_mem_append, and_iff_right hposition,
    and_iff_left hpersons, exportData]
  split
  · rename_i hdata
    simp only [List.forall_mem_singleton, JsonMsg.mem_texts, mem_dataMembers, hdata, ne_eq,
      not_false_eq_true, forall_const]
  · rename_i hdata
    exact iff_of_true (fun _ hmsg => absurd hmsg List.not_mem_nil)
      fun hmmsi hname => absurd ⟨hmmsi, hname⟩ hdata

/-- An append makes the list longer by one at most. -/
theorem length_appendIf_le (cond : Bool) (members : JsonMembers) :
    (appendIf cond members).length ≤ members.length := by
  cases cond <;> simp [appendIf]

/-- So does that of a string. -/
theorem length_appendString_le (key : JsonKey) (s : Option (List UInt8)) :
    (appendString key s).length ≤ 1 := by
  cases s <;> simp [appendString]

/-- The members of the static data, counted. -/
theorem length_dataMembers_le (e : CacheEnt) : (dataMembers e).length ≤ 10 := by
  simp only [dataMembers, List.length_append]
  exact Nat.add_le_add (Nat.add_le_add (Nat.add_le_add (Nat.add_le_add (Nat.add_le_add
    (Nat.add_le_add (Nat.add_le_add (length_appendIf_le ..) (length_appendIf_le ..))
      (length_appendString_le ..)) (length_appendString_le ..)) (length_appendString_le ..))
    (length_appendIf_le ..)) (length_appendIf_le ..)) (length_appendIf_le ..)

/-- A message has at most ten members, and numbers at most seven digits behind the point. -/
theorem members_exportEnt {e : CacheEnt} {msg : JsonMsg} (hmsg : msg ∈ exportEnt e) :
    msg.members.length ≤ 10 ∧
      ∀ key places x, (key, JsonValue.f places x) ∈ msg.members → places ≤ 7 := by
  simp only [exportEnt, exportPosition, exportData, exportPersons, List.mem_append,
    List.mem_ite_nil_right, List.mem_singleton] at hmsg
  rcases hmsg with (⟨-, rfl⟩ | ⟨-, rfl⟩) | ⟨-, rfl⟩
  · constructor
    · simp only [List.length_append]
      have hlen := Nat.add_le_add (Nat.add_le_add (Nat.add_le_add
        (length_appendIf_le (e.course.value ≥ 0) [(.course, .f 1 e.course)])
        (length_appendIf_le (e.hdg ≥ 0) [(.heading, .d e.hdg)]))
        (length_appendIf_le (e.sog.value ≥ 0) [(.speed, .f 1 e.sog)]))
        (length_appendIf_le (e.navstat ≥ 0) [(.status, .d e.navstat)])
      simp only [List.length_cons, List.length_nil] at hlen ⊢
      omega
    · intro key places x hmem
      simp at hmem
      omega
  · refine ⟨length_dataMembers_le e, fun key places x hmem => ?_⟩
    simp [dataMembers] at hmem
    omega
  · refine ⟨Nat.le_of_ble_eq_true rfl, fun key places x hmem => ?_⟩
    simp at hmem

/-- The messages of an entry with such strings. -/
theorem sixbit_exportEnt {e : CacheEnt} (he : ∀ s ∈ e.texts, SixbitText 20 s) :
    ∀ msg ∈ exportEnt e, msg.Sixbit := fun msg hmsg =>
  ⟨(members_exportEnt hmsg).1, (forall_texts_exportEnt e).mpr (fun _ _ => he) msg hmsg,
    (members_exportEnt hmsg).2⟩

end Entries

/-! ## The text

Every string that is appended has to fit in the array of `str_append`. They are all far
shorter, except that the strings of a message depend on the vessel, which is why the
bounds above are needed. -/

section Text

variable (fmt : FloatFormat) (gmtime : ℤ → Tm)

/-- A time as it is printed. -/
theorem length_timeJsonais_le (dt : Tm) : (timeJsonais dt).length ≤ 14 := by
  rw [timeJsonais, List.length_take]
  exact Nat.min_le_left _ _

/-- The longest name of a member. -/
theorem JsonKey.length_text_le (k : JsonKey) : k.text.length ≤ 16 := by
  cases k <;> decide

/-- The value of a member is no longer than a number with seven digits behind the point. -/
theorem JsonMsg.Sixbit.length_value_le {msg : JsonMsg} (h : msg.Sixbit) {m : JsonKey × JsonValue}
    (hm : m ∈ msg.members) : (m.2.scalar fmt).piece.text.length ≤ 48 := by
  obtain ⟨key, value⟩ := m
  cases value with
  | d i => exact Nat.le_trans (length_printInt_le i) (by decide)
  | f places x =>
    have hplaces := h.places_le key places x hm
    exact Nat.le_trans (fmt.length_le places x) (by omega)
  | s bytes =>
    have hlen := (h.texts bytes (JsonMsg.mem_texts.mpr ⟨key, hm⟩)).1
    change (34 :: (bytes ++ [34])).length ≤ 48
    rw [List.length_cons, List.length_append, List.length_singleton]
    omega

/-- A message is short. -/
theorem JsonMsg.Sixbit.length_pieces_le {msg : JsonMsg} (h : msg.Sixbit) :
    (textOf (msg.pieces fmt gmtime)).length ≤ 912 := by
  have hnumber : ∀ (k : List UInt8) i, k.length ≤ 16 →
      k.length + (Scalar.number (printInt i)).piece.text.length ≤ 64 := fun k i hk =>
    Nat.add_le_add hk (Nat.le_trans (length_printInt_le i) (by decide : 11 ≤ 48))
  have hmember : ∀ m ∈ msg.members.map fun m => (m.1.text, m.2.scalar fmt),
      m.1.length + m.2.piece.text.length ≤ 64 :=
    List.forall_mem_map.mpr fun m hm =>
      Nat.add_le_add (JsonKey.length_text_le m.1) (h.length_value_le fmt hm)
  have hrxtime : (msg.rxtimeMember gmtime).1.length +
      (msg.rxtimeMember gmtime).2.piece.text.length ≤ 64 := by
    have htime := length_timeJsonais_le (gmtime msg.rxtime)
    change (ascii "rxtime").length + (34 :: (timeJsonais (gmtime msg.rxtime) ++ [34])).length ≤ 64
    rw [List.length_cons, List.length_append, List.length_singleton,
      show (ascii "rxtime").length = 6 from rfl]
    omega
  have hlen : (msg.scalars fmt gmtime).length ≤ 12 := by
    have hmembers := h.length_le
    rw [JsonMsg.scalars]
    split <;> simp <;> omega
  have hall : ∀ m ∈ msg.first :: msg.scalars fmt gmtime,
      m.1.length + m.2.piece.text.length ≤ 64 := by
    rw [JsonMsg.scalars, List.forall_mem_cons, List.forall_mem_cons]
    refine ⟨hnumber (ascii "msgtype") _ (by decide), hnumber (ascii "mmsi") _ (by decide), ?_⟩
    split
    · exact List.forall_mem_append.mpr ⟨hmember, List.forall_mem_singleton.mpr hrxtime⟩
    · exact List.forall_mem_cons.mpr ⟨hrxtime, hmember⟩
  exact Nat.le_trans (length_object_le hall) (by omega)

/-- Strings without terminators that fit the array are put one behind the other, as long
as the text in front of the last has a length for an `int`. The last string is not
counted, as nothing is appended to it. -/
theorem foldlM_strAppend (buf : Vector UInt8 logLen) (last : List UInt8) (strs : List (List UInt8))
    (h : ∀ t ∈ strs ++ [last], 0 ∉ t ∧ t.length < logLen) (s : List UInt8) :
    (strs ++ [last]).foldlM (strAppend buf) s =
      if (s ++ strs.flatten).length < 2 ^ 31 then some (s ++ strs.flatten ++ last) else none := by
  have hstep : ∀ s t, 0 ∉ t → t.length < logLen →
      strAppend buf s t = if s.length < 2 ^ 31 then some (s ++ t) else none := by
    intro s t hzero hlen
    have htake : t.take (logLen - 1) = t := List.take_of_length_le (Nat.le_sub_one_of_lt hlen)
    have hwhole : t.takeWhile (· ≠ 0) = t := takeWhile_ne_zero hzero
    rw [strAppend, cString_message_last, htake, hwhole]
    rfl
  induction strs generalizing s with
  | nil =>
    obtain ⟨hzero, hlen⟩ := h last (List.mem_singleton_self last)
    rw [List.nil_append, List.foldlM_cons, hstep s last hzero hlen, List.flatten_nil,
      List.append_nil]
    split <;> rfl
  | cons t strs ih =>
    obtain ⟨hzero, hlen⟩ := h t (List.mem_cons_self ..)
    have hrest := ih fun t' ht' => h t' (List.mem_cons_of_mem _ ht')
    rw [List.cons_append, List.foldlM_cons, hstep s t hzero hlen, List.flatten_cons,
      ← List.append_assoc]
    by_cases hshort : s.length < 2 ^ 31
    · rw [if_pos hshort, Option.bind_eq_bind, Option.bind_some, hrest]
    · rw [if_neg hshort, if_neg]
      · rfl
      · rw [List.length_append, List.length_append]
        omega

/-- The strings of messages like these fit the array. -/
theorem length_allStrings_lt {msgs : List JsonMsg} (h : ∀ msg ∈ msgs, msg.Sixbit) :
    ∀ t ∈ allStrings fmt gmtime msgs, t.length < logLen := by
  have hmsg : ∀ sep msg, sep.length ≤ 2 → msg ∈ msgs → ∀ t ∈ msgStrings fmt gmtime sep msg,
      t.length < logLen := by
    intro sep msg hsep hmem t ht
    have hsub := (List.sublist_flatten_of_mem ht).length_le
    have hpieces := (h msg hmem).length_pieces_le fmt gmtime
    rw [flatten_msgStrings, List.length_append] at hsub
    change t.length < 8192
    omega
  cases msgs with
  | nil => exact fun t ht => absurd ht List.not_mem_nil
  | cons msg msgs =>
    intro t ht
    rcases List.mem_append.mp ht with ht | ht
    · exact hmsg [] msg (by decide) (List.mem_cons_self ..) t ht
    · obtain ⟨msg', hmem, ht⟩ := List.mem_flatMap.mp ht
      exact hmsg [44, 10] msg' (by decide) (List.mem_cons_of_mem _ hmem) t ht

/-- The head with the longest name of a station. -/
theorem length_docHead_lt (now : ℤ) (mycall : Mycall) :
    (docHead gmtime now mycall).length < logLen := by
  have htime := length_timeJsonais_le (gmtime now)
  have hname := mycall.length_le
  change _ < 8192
  simp [docHead, ascii]
  omega

/-- The text of messages from the decoders. -/
theorem jsonText_eq {msgs : List JsonMsg} (h : ∀ msg ∈ msgs, msg.Sixbit)
    (buf : Vector UInt8 logLen) (now : ℤ) (mycall : Mycall) :
    jsonText fmt gmtime buf now mycall msgs =
      if (docHead gmtime now mycall :: allStrings fmt gmtime msgs).flatten.length < 2 ^ 31 then
        some (textOf (bodyPieces fmt gmtime now mycall msgs ++ footPieces))
      else none := by
  have hwhole : (docHead gmtime now mycall :: allStrings fmt gmtime msgs ++ [docFoot]).flatten =
      textOf (bodyPieces fmt gmtime now mycall msgs ++ footPieces) := by
    rw [List.flatten_append, flatten_body, textOf_append, textOf_footPieces]
    rfl
  -- no terminator in the whole text, so none in its strings
  have hzero : 0 ∉ textOf (bodyPieces fmt gmtime now mycall msgs ++ footPieces) := by
    have hverbatim : ∀ s, Verbatim s → 0 ∉ s := fun s hs hmem => absurd (hs.2 0 hmem).1 (by decide)
    refine zero_not_mem_textOf ((forall_strings_pieces fmt gmtime hverbatim ..).mpr
      ⟨mycall.zero_not_mem, fun msg hmsg s hs hmem => ?_⟩)
    exact absurd (((h msg hmsg).texts s hs).2 0 hmem).1 (by decide)
  have hstrs : ∀ t ∈ docHead gmtime now mycall :: allStrings fmt gmtime msgs ++ [docFoot],
      0 ∉ t ∧ t.length < logLen := by
    intro t ht
    constructor
    · intro hmem
      rw [← hwhole] at hzero
      exact hzero ((List.sublist_flatten_of_mem ht).mem hmem)
    · rcases List.mem_append.mp ht with ht | ht
      · rcases List.mem_cons.mp ht with rfl | ht
        · exact length_docHead_lt gmtime now mycall
        · exact length_allStrings_lt fmt gmtime h t ht
      · rw [List.mem_singleton.mp ht]
        decide
  rw [jsonText, foldlM_strAppend buf _ _ hstrs, ← hwhole, List.flatten_append]
  simp only [List.nil_append, List.flatten_singleton]

/-- The text of messages from the decoders is read as what was meant if no string needs
an escape, and if it is short enough. -/
theorem jsonText_reads_iff {msgs : List JsonMsg} (h : ∀ msg ∈ msgs, msg.Sixbit)
    (buf : Vector UInt8 logLen) (now : ℤ) (mycall : Mycall) :
    (∃ text, jsonText fmt gmtime buf now mycall msgs = some text ∧
        parse text = some (exportDoc fmt gmtime now mycall msgs)) ↔
      Verbatim mycall.chars ∧ (∀ msg ∈ msgs, ∀ s ∈ msg.texts, 34 ∉ s ∧ 92 ∉ s) ∧
        (docHead gmtime now mycall :: allStrings fmt gmtime msgs).flatten.length < 2 ^ 31 := by
  have hparse := parse_text_strings_iff (block_pieces fmt gmtime now mycall msgs)
    (tokensOf_pieces fmt gmtime now mycall msgs)
  rw [forall_strings_pieces fmt gmtime (fun _ hs => hs)] at hparse
  have hsixbit : (∀ msg ∈ msgs, ∀ s ∈ msg.texts, Verbatim s) ↔
      ∀ msg ∈ msgs, ∀ s ∈ msg.texts, 34 ∉ s ∧ 92 ∉ s :=
    forall₂_congr fun msg hmsg => forall₂_congr fun s hs => verbatim_iff_of_ascii fun c hc =>
      ⟨(((h msg hmsg).texts s hs).2 c hc).1,
        UInt8.lt_of_le_of_lt (((h msg hmsg).texts s hs).2 c hc).2 (by decide)⟩
  rw [← hsixbit, ← and_assoc, ← hparse, jsonText_eq fmt gmtime h]
  split
  · rename_i hshort
    rw [and_iff_left hshort]
    constructor
    · rintro ⟨text, htext, hread⟩
      rw [Option.some.inj htext]
      exact hread
    · exact fun hread => ⟨_, rfl, hread⟩
  · rename_i hlong
    exact iff_of_false (fun ⟨_, htext, _⟩ => absurd htext.symm (Option.some_ne_none _)) fun hread =>
      hlong hread.2

/-- A call since the last rotation is one of the run. -/
theorem mem_of_mem_current {ops : List CacheOp} {call : CacheCall}
    (h : call ∈ (intervals ops).current) : .update call ∈ ops := by
  induction ops using List.reverseRecOn with
  | nil => cases h
  | append_singleton ops op ih =>
    rw [intervals_concat] at h
    cases op with
    | update call' =>
      rcases List.mem_append.mp h with h | h
      · exact List.mem_append_left _ (ih h)
      · rw [List.mem_singleton.mp h]
        exact List.mem_append_right _ (List.mem_singleton_self _)
    | rotate => cases h

/-- What the calls of decoders have left in the cache is exported as a text that is read
as the document meant if and only if the name of the station may stand as it is, no
string of an exported vessel needs an escape, and the text is short enough. -/
theorem Snapshot.exported_reads_iff {ops : List CacheOp} {entries : List (SpKey × CacheEnt)}
    (hsnapshot : Snapshot (intervals ops).current entries)
    (hops : ∀ call, .update call ∈ ops → DecodedCall call)
    (buf : Vector UInt8 logLen) (now : ℤ) (mycall : Mycall) {msgs : List JsonMsg}
    (hmsgs : msgs = entries.flatMap (fun x => exportEnt x.2)) :
    (∃ text, jsonText fmt gmtime buf now mycall msgs = some text ∧
        parse text = some (exportDoc fmt gmtime now mycall msgs)) ↔
      Verbatim mycall.chars ∧
      (∀ x ∈ entries, x.2.mmsi ≠ 0 → x.2.name.isSome → ∀ s ∈ x.2.texts, 34 ∉ s ∧ 92 ∉ s) ∧
      (docHead gmtime now mycall :: allStrings fmt gmtime msgs).flatten.length < 2 ^ 31 := by
  subst hmsgs
  have hsixbit : ∀ msg ∈ entries.flatMap (fun x => exportEnt x.2), msg.Sixbit := by
    intro msg hmsg
    obtain ⟨x, hx, hmsg⟩ := List.mem_flatMap.mp hmsg
    have htexts := hsnapshot.texts_sixbit (fun call hcall => hops call (mem_of_mem_current hcall)) hx
    exact sixbit_exportEnt htexts msg hmsg
  rw [jsonText_reads_iff fmt gmtime hsixbit, List.forall_mem_flatMap]
  simp only [forall_texts_exportEnt]

/-- In every run of calls of the decoders and rotations, the export builds a text that
is read as the document with the records of the cache if and only if the name of the
station may stand as it is, no callsign, name or destination of an exported vessel has a
quotation mark or a backslash in it, and the text in front of the closing brackets is
shorter than 2^31 bytes. -/
theorem jsonText_iff (mem : Memory) (ops : List CacheOp)
    (hops : ∀ call, .update call ∈ ops → DecodedCall call)
    (buf : Vector UInt8 logLen) (now : ℤ) (mycall : Mycall) :
    ∃ r entries msgs s, cacheRun mem ops = some r ∧ jsonoutExport r.cache = some (msgs, s) ∧
      Snapshot (intervals ops).current entries ∧
      msgs = entries.flatMap (fun x => exportEnt x.2) ∧
      ((∃ text, jsonText fmt gmtime buf now mycall msgs = some text ∧
          parse text = some (exportDoc fmt gmtime now mycall msgs)) ↔
        Verbatim mycall.chars ∧
        (∀ x ∈ entries, x.2.mmsi ≠ 0 → x.2.name.isSome → ∀ s ∈ x.2.texts, 34 ∉ s ∧ 92 ∉ s) ∧
        (docHead gmtime now mycall :: allStrings fmt gmtime msgs).flatten.length < 2 ^ 31) := by
  obtain ⟨r, entries, s, hrun, hexport, hsnapshot⟩ := jsonoutExport_spec mem ops
  exact ⟨r, entries, _, s, hrun, hexport, hsnapshot, rfl,
    hsnapshot.exported_reads_iff fmt gmtime hops buf now mycall rfl⟩

end Text

/-- A static report of class B, part A, whose name is the one letter `letter`. -/
def partAFrame (letter : ℕ) : Frame :=
  Buffer.splice (Vector.replicate _ 0) 0 ((List.replicate 40 false ++ toBits 6 letter).map byte)

/-- A ship called `A`, and a station without a name. -/
theorem jsonText_iff_letter :
    ∃ r entries msgs s,
      cacheRun emptyMemory [.update (.vesselname 0 5 [65] classBDestination)] = some r ∧
      jsonoutExport r.cache = some (msgs, s) ∧
      Snapshot (intervals [.update (.vesselname 0 5 [65] classBDestination)]).current entries ∧
      msgs = entries.flatMap (fun x => exportEnt x.2) ∧
      ((∃ text, jsonText .zero (fun _ => ⟨70, 0, 1, 0, 0, 0⟩) (Vector.replicate _ 0) 0
            ⟨[], List.not_mem_nil, Nat.zero_le _⟩ msgs = some text ∧
          parse text = some (exportDoc .zero (fun _ => ⟨70, 0, 1, 0, 0, 0⟩) 0
            ⟨[], List.not_mem_nil, Nat.zero_le _⟩ msgs)) ↔
        Verbatim [] ∧
        (∀ x ∈ entries, x.2.mmsi ≠ 0 → x.2.name.isSome → ∀ s ∈ x.2.texts, 34 ∉ s ∧ 92 ∉ s) ∧
        (docHead (fun _ => ⟨70, 0, 1, 0, 0, 0⟩) 0 ⟨[], List.not_mem_nil, Nat.zero_le _⟩ ::
          allStrings .zero (fun _ => ⟨70, 0, 1, 0, 0, 0⟩) msgs).flatten.length < 2 ^ 31) := by
  have hcalls : messageCalls ⟨false, true, false, fun _ => false⟩ 24 168 (partAFrame 1) 0 5 =
      some [.printf (.vesselName [65]), .cache (.vesselname 0 5 [65] classBDestination)] := by
    decide +kernel
  have hdecoded : DecodedCall (.vesselname 0 5 [65] classBDestination) :=
    ⟨_, _, _, _, _, _, _, hcalls, List.mem_cons_of_mem _ (List.mem_singleton_self _)⟩
  refine jsonText_iff .zero (fun _ => ⟨70, 0, 1, 0, 0, 0⟩) emptyMemory _ (fun call hcall => ?_) _ _ _
  obtain rfl := CacheOp.update.inj (List.mem_singleton.mp hcall)
  exact hdecoded

end Gnuais
