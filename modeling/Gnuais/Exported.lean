import Gnuais.OutJson

/-!
# What the export says about a vessel

`jsonout_export` decides from the values in an entry which parts of it were ever
received. For the position it asks that both coordinates are away from zero, where
the value for "no position" has both at zero: a vessel on the equator or on the
meridian of Greenwich is left out (`position_exported_iff`). For the static data a
negative value stands for "not received", but the draught starts at zero, and a
class B message stores zero for the draught and the IMO number: these two are
exported for vessels that never sent them (`data_invented_iff`).
-/

namespace Gnuais

/-! ## One vessel

The export goes through all entries. What it says about one vessel comes from one of them,
so the messages for an MMSI are the messages of its entry, or none. -/

section Vessel

variable {calls : List CacheCall} {entries : List (SpKey × CacheEnt)} {mmsi : Int32} {e : CacheEnt}

/-- The MMSI in an entry is that of its key. -/
theorem Snapshot.mmsi_eq (hs : Snapshot calls entries) (he : (mmsi.toUInt32, e) ∈ entries) :
    e.mmsi = mmsi := by
  obtain ⟨call, hcall, hkey⟩ := (hs.keys mmsi.toUInt32).mp (List.mem_map.mpr ⟨_, he, rfl⟩)
  have hmem : call ∈ calls.filter fun call => call.mmsi = mmsi :=
    List.mem_filter.mpr ⟨hcall, decide_eq_true (toUInt32_inj hkey)⟩
  have hgives : ∀ call : CacheCall, call.gives .mmsi = some call.mmsi := by
    intro call
    cases call <;> rfl
  have hfield : e.mmsi = _ := hs.fields mmsi e he Int32 .mmsi
  rcases Records.lastWrite_cases (fun call : CacheCall => call.gives .mmsi)
    (CacheField.get .mmsi cacheEntInit) (calls.filter fun call => call.mmsi = mmsi)
    with ⟨hnone, -⟩ | ⟨call', hmem', hlast⟩
  · exact absurd ((hgives call).symm.trans (hnone call hmem)) (Option.some_ne_none _)
  · rw [hgives, Option.some.injEq] at hlast
    rw [hfield, ← hlast]
    exact of_decide_eq_true (List.mem_filter.mp hmem').2

/-- Every message of an entry is for its MMSI. -/
theorem mmsi_of_mem_exportEnt {msg : JsonMsg} (hmsg : msg ∈ exportEnt e) : msg.mmsi = e.mmsi := by
  simp only [exportEnt, List.mem_append] at hmsg
  rcases hmsg with (hmsg | hmsg) | hmsg
  · rw [exportPosition] at hmsg
    split at hmsg
    · rw [List.mem_singleton.mp hmsg]
    · exact absurd hmsg List.not_mem_nil
  · rw [exportData] at hmsg
    split at hmsg
    · rw [List.mem_singleton.mp hmsg]
    · exact absurd hmsg List.not_mem_nil
  · rw [exportPersons] at hmsg
    split at hmsg
    · rw [List.mem_singleton.mp hmsg]
    · exact absurd hmsg List.not_mem_nil

/-- Other entries have other MMSIs. -/
theorem Snapshot.mmsi_ne (hs : Snapshot calls entries) {x : SpKey × CacheEnt} (hx : x ∈ entries)
    (hk : x.1 ≠ mmsi.toUInt32) : x.2.mmsi ≠ mmsi := by
  obtain ⟨call, -, hkey⟩ := (hs.keys x.1).mp (List.mem_map.mpr ⟨x, hx, rfl⟩)
  have hent : (call.mmsi.toUInt32, x.2) ∈ entries := by
    rw [hkey]
    exact hx
  rw [hs.mmsi_eq hent]
  rintro rfl
  exact hk hkey.symm

/-- The messages for an MMSI are those of its entry. -/
theorem Snapshot.export_filter (hs : Snapshot calls entries) (he : (mmsi.toUInt32, e) ∈ entries)
    (p : JsonMsg → Bool) :
    (entries.flatMap fun x => exportEnt x.2).filter (fun msg => p msg && msg.mmsi = mmsi) =
      (exportEnt e).filter p := by
  have hmmsi := hs.mmsi_eq he
  obtain ⟨before, after, rfl⟩ := List.append_of_mem he
  have hascending := hs.ascending
  rw [List.map_append, List.map_cons, List.pairwise_append, List.pairwise_cons] at hascending
  obtain ⟨-, ⟨hafter, -⟩, hbefore⟩ := hascending
  have hother : ∀ x ∈ before ++ after,
      (exportEnt x.2).filter (fun msg => p msg && msg.mmsi = mmsi) = [] := by
    intro x hx
    have hne : x.2.mmsi ≠ mmsi := by
      rcases List.mem_append.mp hx with hx | hx
      · refine hs.mmsi_ne (List.mem_append_left _ hx) (UInt32.ne_of_lt ?_)
        exact hbefore _ (List.mem_map_of_mem hx) _ (List.mem_cons_self ..)
      · refine hs.mmsi_ne (List.mem_append_right _ (List.mem_cons_of_mem _ hx)) ?_
        exact (UInt32.ne_of_lt (hafter _ (List.mem_map_of_mem hx))).symm
    rw [List.filter_eq_nil_iff]
    intro msg hmsg
    simp [mmsi_of_mem_exportEnt hmsg, hne]
  have hself : (exportEnt e).filter (fun msg => p msg && msg.mmsi = mmsi) = (exportEnt e).filter p :=
    List.filter_congr fun msg hmsg => by simp [mmsi_of_mem_exportEnt hmsg, hmmsi]
  rw [List.filter_flatMap, List.flatMap_append, List.flatMap_cons, hself,
    List.flatMap_eq_nil_iff.mpr fun x hx => hother x (List.mem_append_left _ hx),
    List.flatMap_eq_nil_iff.mpr fun x hx => hother x (List.mem_append_right _ hx),
    List.nil_append, List.append_nil]

end Vessel

/-! ## Positions

The default for "not received" is a position itself, the one on the equator at the
meridian of Greenwich. The test leaves out more than that: both lines and everything close
to them. -/

/-- The coordinates of a position call. -/
def CacheCall.latLon : CacheCall → Option (FloatExpr × FloatExpr)
  | .position _ _ _ lat lon _ _ _ _ => some (lat, lon)
  | _ => none

/-- The last position among some calls for an MMSI. -/
def lastPosition (mmsi : Int32) (calls : List CacheCall) : Option (FloatExpr × FloatExpr) :=
  ((calls.filter fun call => call.mmsi = mmsi).filterMap CacheCall.latLon).getLast?

/-- The entry of an MMSI with a position has this position. -/
theorem Snapshot.position_eq {calls : List CacheCall} {entries : List (SpKey × CacheEnt)}
    {mmsi : Int32} {lat lon : FloatExpr} (hs : Snapshot calls entries)
    (hlast : lastPosition mmsi calls = some (lat, lon)) :
    ∃ e, (mmsi.toUInt32, e) ∈ entries ∧ e.lat = lat ∧ e.lon = lon := by
  obtain ⟨call, hcall, -⟩ := List.mem_filterMap.mp (List.mem_of_getLast? hlast)
  obtain ⟨hcall, hmmsi⟩ := List.mem_filter.mp hcall
  obtain ⟨⟨k, e⟩, he, hk⟩ := List.mem_map.mp ((hs.keys mmsi.toUInt32).mpr
    ⟨call, hcall, congrArg _ (of_decide_eq_true hmmsi)⟩)
  obtain rfl : k = mmsi.toUInt32 := hk
  have hlat : (fun call : CacheCall => call.gives .lat) = fun call => call.latLon.map Prod.fst := by
    funext call
    cases call <;> rfl
  have hlon : (fun call : CacheCall => call.gives .lon) = fun call => call.latLon.map Prod.snd := by
    funext call
    cases call <;> rfl
  rw [lastPosition] at hlast
  refine ⟨e, he, ?_, ?_⟩
  · have hfield : e.lat = _ := hs.fields mmsi e he FloatExpr .lat
    rw [hfield, Records.lastWrite, hlat, ← List.map_filterMap, List.getLast?_map, hlast]
    rfl
  · have hfield : e.lon = _ := hs.fields mmsi e he FloatExpr .lon
    rw [hfield, Records.lastWrite, hlon, ← List.map_filterMap, List.getLast?_map, hlast]
    rfl

/-- The default for "no position": both coordinates are at most 0.0001 degree. -/
def NoPosition (lat lon : FloatExpr) : Prop := |lat.value| ≤ 1 / 10000 ∧ |lon.value| ≤ 1 / 10000

instance (lat lon : FloatExpr) : Decidable (NoPosition lat lon) :=
  inferInstanceAs (Decidable (_ ∧ _))

/-- The test of `jsonout_export` is on each coordinate. -/
theorem gotPos_iff (e : CacheEnt) :
    gotPos e ↔ 1 / 10000 < |e.lat.value| ∧ 1 / 10000 < |e.lon.value| := by
  simp only [gotPos, gt_iff_lt, Bool.and_eq_true, Bool.or_eq_true, decide_eq_true_eq, lt_abs,
    lt_neg]

/-- The messages of type 3 of an entry. -/
theorem exportEnt_positions (e : CacheEnt) :
    (exportEnt e).filter (fun msg => msg.msgtype = 3) = exportPosition e := by
  rw [exportEnt, List.filter_append, List.filter_append]
  have hposition : (exportPosition e).filter (fun msg => msg.msgtype = 3) = exportPosition e := by
    rw [exportPosition]
    split <;> rfl
  have hdata : (exportData e).filter (fun msg => msg.msgtype = 3) = [] := by
    rw [exportData]
    split <;> rfl
  have hpersons : (exportPersons e).filter (fun msg => msg.msgtype = 3) = [] := by
    rw [exportPersons]
    split <;> rfl
  rw [hposition, hdata, hpersons, List.append_nil, List.append_nil]

/-- A message with this position. -/
def JsonMsg.HasPosition (msg : JsonMsg) (lat lon : FloatExpr) : Prop :=
  (.lat, .f 7 lat) ∈ msg.members ∧ (.lon, .f 7 lon) ∈ msg.members

/-- Exactly one message of type 3 is exported for the MMSI, with this position. -/
def PositionExported (msgs : List JsonMsg) (mmsi : Int32) (lat lon : FloatExpr) : Prop :=
  ∃ msg, msgs.filter (fun msg => msg.msgtype = 3 && msg.mmsi = mmsi) = [msg] ∧
    msg.HasPosition lat lon

/-- An entry's position is exported when the test lets it through. -/
theorem Snapshot.positionExported_iff {calls : List CacheCall}
    {entries : List (SpKey × CacheEnt)} {mmsi : Int32} {lat lon : FloatExpr}
    (hs : Snapshot calls entries) (hmmsi : mmsi ≠ 0)
    (hlast : lastPosition mmsi calls = some (lat, lon)) :
    PositionExported (entries.flatMap fun x => exportEnt x.2) mmsi lat lon ↔
      1 / 10000 < |lat.value| ∧ 1 / 10000 < |lon.value| := by
  obtain ⟨e, he, rfl, rfl⟩ := hs.position_eq hlast
  have hfilter := hs.export_filter he fun msg => msg.msgtype = 3
  rw [exportEnt_positions] at hfilter
  rw [PositionExported, hfilter, ← gotPos_iff, exportPosition, hs.mmsi_eq he]
  by_cases hpos : gotPos e
  · rw [if_pos ⟨hmmsi, hpos⟩]
    refine iff_of_true ⟨_, rfl, ?_⟩ hpos
    simp [JsonMsg.HasPosition]
  · rw [if_neg fun h => hpos h.2]
    refine iff_of_false ?_ hpos
    rintro ⟨msg, hmsg, -⟩
    cases hmsg

/-- In every run the next export says the last position of a vessel exactly if neither
coordinate is within 0.0001 degree of zero. The two tests of `got_pos` are on one
coordinate each, where a default position would have to fail both. -/
theorem position_exported_iff (mem : Memory) (ops : List CacheOp) {mmsi : Int32}
    {lat lon : FloatExpr} (hmmsi : mmsi ≠ 0)
    (hlast : lastPosition mmsi (intervals ops).current = some (lat, lon)) :
    ∃ r msgs s, cacheRun mem ops = some r ∧ jsonoutExport r.cache = some (msgs, s) ∧
      (PositionExported msgs mmsi lat lon ↔
        1 / 10000 < |lat.value| ∧ 1 / 10000 < |lon.value|) := by
  obtain ⟨r, entries, s, hrun, hexport, hsnapshot⟩ := jsonoutExport_spec mem ops
  exact ⟨r, _, s, hrun, hexport, hsnapshot.positionExported_iff hmmsi hlast⟩

/-- A coordinate in 1/10000 minute. -/
def minutes (i : ℤ) : FloatExpr := .div (.div (.ofInt i) (.lit 10000)) (.lit 60)

/-- A vessel that reports its position once. -/
def reportedOnce (lat lon : ℤ) : List CacheOp :=
  [.update (.position 0 244660000 0 (minutes lat) (minutes lon) 90 (.div (.ofInt 900) (.lit 10)) 0
    (.div (.ofInt 100) (.lit 10)))]

/-- A memory with nothing in it. -/
def emptyMemory : Memory where
  links := ⟨fun _ _ => none, fun _ => none⟩
  key := fun _ => 0
  data := fun _ => none
  freeList := none
  brk := 0

/-- At 52.4° N 4.9° E. -/
theorem position_exported_iff_harbour :
    ∃ r msgs s, cacheRun emptyMemory (reportedOnce 31440000 2940000) = some r ∧
      jsonoutExport r.cache = some (msgs, s) ∧
      (PositionExported msgs 244660000 (minutes 31440000) (minutes 2940000) ↔
        1 / 10000 < |(minutes 31440000).value| ∧ 1 / 10000 < |(minutes 2940000).value|) :=
  position_exported_iff emptyMemory (reportedOnce 31440000 2940000)
    (show (244660000 : Int32) ≠ 0 by decide) rfl

/-- A vessel on the equator at 4.9° E is left out. -/
theorem equator_dropped :
    ¬ ∀ (mem : Memory) (ops : List CacheOp) (mmsi : Int32) (lat lon : FloatExpr), mmsi ≠ 0 →
      lastPosition mmsi (intervals ops).current = some (lat, lon) → ¬ NoPosition lat lon →
      ∃ r msgs s, cacheRun mem ops = some r ∧ jsonoutExport r.cache = some (msgs, s) ∧
        PositionExported msgs mmsi lat lon := by
  intro hall
  obtain ⟨r, msgs, s, hrun, hexport, hexported⟩ := hall emptyMemory (reportedOnce 0 2940000)
    244660000 _ _ (by decide) rfl (by decide +kernel)
  obtain ⟨r', entries, s', hrun', hexport', hsnapshot⟩ :=
    jsonoutExport_spec emptyMemory (reportedOnce 0 2940000)
  obtain rfl := Option.some.inj (hrun.symm.trans hrun')
  obtain ⟨rfl, -⟩ := Prod.mk.inj (Option.some.inj (hexport.symm.trans hexport'))
  have hboth := (hsnapshot.positionExported_iff (by decide) rfl).mp hexported
  exact absurd hboth.1 (by decide +kernel)

/-! ## Static data

Three sources of a value are told apart: a message that carried it, the first value of the
entry, and a value that a call writes although its message has none. The last kind is what
is exported wrongly. -/

/-- The members a message carries a value for, by the call that is made for it: message 5,
message 24 part B, the static part of message 19, and message 24 part A or the name in
message 19. The draught and the IMO number are in message 5 only. -/
def CacheCall.carries : CacheCall → List JsonKey
  | .vesseldata .. => [.imo, .shiptype, .callsign, .shipname, .destination, .length, .refFront,
      .draught, .width, .refLeft]
  | .vesseldatab .. => [.shiptype, .callsign, .length, .refFront, .width, .refLeft]
  | .vesseldatabb .. => [.shiptype, .length, .refFront, .width, .refLeft]
  | .vesselname .. => [.shipname, .destination]
  | _ => []

/-- A call for message 5. -/
def CacheCall.isVesseldata : CacheCall → Bool
  | .vesseldata .. => true
  | _ => false

/-- Some message for the MMSI carried this member. -/
def Carried (calls : List CacheCall) (mmsi : Int32) (key : JsonKey) : Prop :=
  ∃ call ∈ calls, call.mmsi = mmsi ∧ key ∈ call.carries

/-- The messages of type 5 for the MMSI have carried members only. It asks nothing of the
values, only that they are not made up. -/
def OnlyCarried (calls : List CacheCall) (msgs : List JsonMsg) (mmsi : Int32) : Prop :=
  ∀ msg ∈ msgs, msg.msgtype = 5 → msg.mmsi = mmsi → ∀ member ∈ msg.members,
    Carried calls mmsi member.1

section Data

variable {calls : List CacheCall} {entries : List (SpKey × CacheEnt)} {mmsi : Int32} {e : CacheEnt}

/-- A field that has not its first value was given by some call. -/
theorem Snapshot.given (hs : Snapshot calls entries) (he : (mmsi.toUInt32, e) ∈ entries) {α : Type}
    (f : CacheField α) (hne : f.get e ≠ f.get cacheEntInit) :
    ∃ call ∈ calls, call.mmsi = mmsi ∧ call.gives f ≠ none := by
  rcases Records.lastWrite_cases (fun call : CacheCall => call.gives f) (f.get cacheEntInit)
    (calls.filter fun call => call.mmsi = mmsi) with ⟨-, hlast⟩ | ⟨call, hcall, hgives⟩
  · exact absurd ((hs.fields mmsi e he α f).trans hlast) hne
  · obtain ⟨hmem, hmmsi⟩ := List.mem_filter.mp hcall
    refine ⟨call, hmem, of_decide_eq_true hmmsi, ?_⟩
    rw [hgives]
    exact Option.some_ne_none _

/-- A call that writes one of these fields carries the members made from it. -/
theorem CacheCall.carries_of_gives (call : CacheCall) :
    (call.gives .shiptype ≠ none → .shiptype ∈ call.carries) ∧
    (call.gives .callsign ≠ none → .callsign ∈ call.carries) ∧
    (call.gives .name ≠ none → .shipname ∈ call.carries) ∧
    (call.gives .destination ≠ none → .destination ∈ call.carries) ∧
    (call.gives .a ≠ none → .length ∈ call.carries ∧ .refFront ∈ call.carries) ∧
    (call.gives .c ≠ none → .width ∈ call.carries ∧ .refLeft ∈ call.carries) := by
  cases call <;> simp [gives, carries]

/-- A name that is given is there. -/
theorem CacheCall.isSome_of_gives_name (call : CacheCall) {name : Option (List UInt8)}
    (h : call.gives .name = some name) : name.isSome := by
  cases call with
  | vesseldata => rw [← Option.some.inj h]; rfl
  | vesselname => rw [← Option.some.inj h]; rfl
  | _ => cases h

/-- A draught that no message carried is 0. -/
theorem CacheCall.zero_of_gives_draught (call : CacheCall) (hdata : call.isVesseldata = false)
    {draught : FloatExpr} (h : call.gives .draught = some draught) : draught = .ofInt 0 := by
  cases call with
  | vesseldata => cases hdata
  | vesseldatab => exact (Option.some.inj h).symm
  | vesseldatabb => exact (Option.some.inj h).symm
  | _ => cases h

/-- Message 5 carries all members of the static data. -/
theorem CacheCall.carries_data (call : CacheCall) (hdata : call.isVesseldata)
    {member : JsonKey × JsonValue} {e : CacheEnt} (hmember : member ∈ dataMembers e) :
    member.1 ∈ call.carries := by
  have hall : member.1 ∈ [JsonKey.imo, .shiptype, .callsign, .shipname, .destination, .length,
      .refFront, .draught, .width, .refLeft] := by
    simp only [dataMembers, List.mem_append, mem_appendIf, mem_appendString, List.mem_cons,
      List.not_mem_nil, or_false] at hmember
    rcases hmember with ((((((⟨-, rfl⟩ | ⟨-, rfl⟩) | ⟨s, -, rfl⟩) | ⟨s, -, rfl⟩) | ⟨s, -, rfl⟩) |
      ⟨-, rfl | rfl⟩) | ⟨-, rfl⟩) | ⟨-, rfl | rfl⟩ <;> simp
  cases call with
  | vesseldata => exact hall
  | _ => cases hdata

/-- All members but the IMO number and the draught were carried by some message. -/
theorem Snapshot.data_carried (hs : Snapshot calls entries) (he : (mmsi.toUInt32, e) ∈ entries)
    {member : JsonKey × JsonValue} (hmember : member ∈ dataMembers e) (himo : member.1 ≠ .imo)
    (hdraught : member.1 ≠ .draught) : Carried calls mmsi member.1 := by
  have hcarried : ∀ {α : Type} (f : CacheField α) {key : JsonKey},
      f.get e ≠ f.get cacheEntInit →
      (∀ call : CacheCall, call.gives f ≠ none → key ∈ call.carries) →
      Carried calls mmsi key := by
    intro α f key hne hkey
    obtain ⟨call, hcall, hmmsi, hgives⟩ := hs.given he f hne
    exact ⟨call, hcall, hmmsi, hkey call hgives⟩
  have hint : ∀ {i : ℤ}, i ≥ 0 → i ≠ -1 := fun h heq => by omega
  have hstring : ∀ {s : Option (List UInt8)} {bytes : List UInt8}, s = some bytes → s ≠ none :=
    fun h => h ▸ Option.some_ne_none _
  simp only [dataMembers, List.mem_append, mem_appendIf, mem_appendString, List.mem_cons,
    List.not_mem_nil, or_false, decide_eq_true_eq, Bool.and_eq_true] at hmember
  rcases hmember with ((((((⟨-, rfl⟩ | ⟨hpos, rfl⟩) | ⟨s, hset, rfl⟩) | ⟨s, hset, rfl⟩) |
    ⟨s, hset, rfl⟩) | ⟨hpos, rfl | rfl⟩) | ⟨-, rfl⟩) | ⟨hpos, rfl | rfl⟩
  · exact absurd rfl himo
  · exact hcarried .shiptype (hint hpos) fun call => call.carries_of_gives.1
  · exact hcarried .callsign (hstring hset) fun call => call.carries_of_gives.2.1
  · exact hcarried .name (hstring hset) fun call => call.carries_of_gives.2.2.1
  · exact hcarried .destination (hstring hset) fun call => call.carries_of_gives.2.2.2.1
  · exact hcarried .a (hint hpos.1) fun call h => (call.carries_of_gives.2.2.2.2.1 h).1
  · exact hcarried .a (hint hpos.1) fun call h => (call.carries_of_gives.2.2.2.2.1 h).2
  · exact absurd rfl hdraught
  · exact hcarried .c (hint hpos.1) fun call h => (call.carries_of_gives.2.2.2.2.2 h).1
  · exact hcarried .c (hint hpos.1) fun call h => (call.carries_of_gives.2.2.2.2.2 h).2

/-- A message of type 5 for the MMSI comes from its entry. -/
theorem Snapshot.data_message (hs : Snapshot calls entries) {msg : JsonMsg}
    (hmsg : msg ∈ entries.flatMap fun x => exportEnt x.2) (htype : msg.msgtype = 5)
    (hmmsi : msg.mmsi = mmsi) :
    ∃ e, (mmsi.toUInt32, e) ∈ entries ∧ e.mmsi ≠ 0 ∧ e.name.isSome ∧
      msg.members = dataMembers e := by
  obtain ⟨⟨k, e⟩, hx, hmsg⟩ := List.mem_flatMap.mp hmsg
  have hk : k = mmsi.toUInt32 := by
    by_contra hne
    exact hs.mmsi_ne hx hne ((mmsi_of_mem_exportEnt hmsg).symm.trans hmmsi)
  simp only [exportEnt, List.mem_append] at hmsg
  rcases hmsg with (hmsg | hmsg) | hmsg
  · rw [exportPosition] at hmsg
    split at hmsg
    · rw [List.mem_singleton.mp hmsg] at htype
      cases htype
    · exact absurd hmsg List.not_mem_nil
  · rw [exportData] at hmsg
    split at hmsg
    · rename_i hcond
      exact ⟨e, hk ▸ hx, hcond.1, hcond.2, by rw [List.mem_singleton.mp hmsg]⟩
    · exact absurd hmsg List.not_mem_nil
  · rw [exportPersons] at hmsg
    split at hmsg
    · rw [List.mem_singleton.mp hmsg] at htype
      cases htype
    · exact absurd hmsg List.not_mem_nil

/-- A vessel that is named without a message 5 gets a draught of 0. -/
theorem Snapshot.draught_invented (hs : Snapshot calls entries) (hmmsi : mmsi ≠ 0)
    {call : CacheCall} (hcall : call ∈ calls) (hcm : call.mmsi = mmsi)
    (hname : call.gives .name ≠ none)
    (hdata : ∀ call ∈ calls, call.mmsi = mmsi → call.isVesseldata = false) :
    ∃ msg ∈ entries.flatMap fun x => exportEnt x.2, msg.msgtype = 5 ∧ msg.mmsi = mmsi ∧
      ∃ member ∈ msg.members, member.1 = .draught := by
  obtain ⟨⟨k, e⟩, he, hk⟩ := List.mem_map.mp ((hs.keys mmsi.toUInt32).mpr ⟨call, hcall, congrArg _ hcm⟩)
  obtain rfl : k = mmsi.toUInt32 := hk
  have hname' : e.name.isSome := by
    have hfield : e.name = _ := hs.fields mmsi e he _ .name
    rcases Records.lastWrite_cases (fun call : CacheCall => call.gives .name)
      (CacheField.get .name cacheEntInit) (calls.filter fun call => call.mmsi = mmsi)
      with ⟨hnone, -⟩ | ⟨call', -, hgives⟩
    · exact absurd (hnone call (List.mem_filter.mpr ⟨hcall, decide_eq_true hcm⟩)) hname
    · rw [hfield]
      exact call'.isSome_of_gives_name hgives
  have hdraught : e.draught = .ofInt 0 := by
    have hfield : e.draught = _ := hs.fields mmsi e he _ .draught
    rcases Records.lastWrite_cases (fun call : CacheCall => call.gives .draught)
      (CacheField.get .draught cacheEntInit) (calls.filter fun call => call.mmsi = mmsi)
      with ⟨-, hlast⟩ | ⟨call', hmem, hgives⟩
    · rw [hfield, hlast]
      rfl
    · obtain ⟨hmem, hmmsi'⟩ := List.mem_filter.mp hmem
      rw [hfield]
      exact call'.zero_of_gives_draught (hdata call' hmem (of_decide_eq_true hmmsi')) hgives
  refine ⟨⟨5, e.mmsi, e.receivedData, dataMembers e⟩, List.mem_flatMap.mpr ⟨_, he, ?_⟩, rfl,
    hs.mmsi_eq he, (.draught, .f 1 e.draught), ?_, rfl⟩
  · rw [exportEnt, exportData, if_pos ⟨hs.mmsi_eq he ▸ hmmsi, hname'⟩]
    exact List.mem_append_left _ (List.mem_append_right _ (List.mem_singleton_self _))
  · simp [dataMembers, hdraught, FloatExpr.value]

/-- The type 5 messages of an MMSI have carried members only, exactly if a message
5 came, or no name. -/
theorem Snapshot.onlyCarried_iff (hs : Snapshot calls entries) :
    OnlyCarried calls (entries.flatMap fun x => exportEnt x.2) mmsi ↔
      mmsi = 0 ∨ (∀ call ∈ calls, call.mmsi = mmsi → call.gives .name = none) ∨
        ∃ call ∈ calls, call.mmsi = mmsi ∧ call.isVesseldata := by
  constructor
  · intro honly
    by_contra hcond
    push Not at hcond
    obtain ⟨hmmsi, ⟨call, hcall, hcm, hname⟩, hdata⟩ := hcond
    have hdata' : ∀ call ∈ calls, call.mmsi = mmsi → call.isVesseldata = false := fun call hc hm =>
      Bool.eq_false_of_not_eq_true (hdata call hc hm)
    obtain ⟨msg, hmsg, htype, hm, member, hmember, hkey⟩ :=
      hs.draught_invented hmmsi hcall hcm hname hdata'
    obtain ⟨call', hcall', hcm', hcarries⟩ := honly msg hmsg htype hm member hmember
    rw [hkey] at hcarries
    have hfalse := hdata' call' hcall' hcm'
    cases call' <;> simp [CacheCall.carries, CacheCall.isVesseldata] at hcarries hfalse
  · intro hcond msg hmsg htype hm member hmember
    obtain ⟨e, he, hzero, hname, hmembers⟩ := hs.data_message hmsg htype hm
    rw [hmembers] at hmember
    rcases hcond with rfl | hnone | ⟨call, hcall, hcm, hdata⟩
    · exact absurd (hs.mmsi_eq he) hzero
    · obtain ⟨call, hcall, hcm, hgives⟩ := hs.given he .name fun heq => by
        rw [show e.name = none from heq] at hname
        cases hname
      exact absurd (hnone call hcall hcm) hgives
    · exact ⟨call, hcall, hcm, call.carries_data hdata hmember⟩

end Data

/-- In every run the next export invents nothing about a vessel exactly if its MMSI
is 0, or no message named it since the last rotation, or a message 5 from it came
since then. What it invents otherwise is an IMO number or a draught. -/
theorem data_invented_iff (mem : Memory) (ops : List CacheOp) (mmsi : Int32) :
    ∃ r msgs s, cacheRun mem ops = some r ∧ jsonoutExport r.cache = some (msgs, s) ∧
      (OnlyCarried (intervals ops).current msgs mmsi ↔
        mmsi = 0 ∨ (∀ call ∈ (intervals ops).current, call.mmsi = mmsi → call.gives .name = none) ∨
          ∃ call ∈ (intervals ops).current, call.mmsi = mmsi ∧ call.isVesseldata) ∧
      ∀ msg ∈ msgs, msg.msgtype = 5 → msg.mmsi = mmsi → ∀ member ∈ msg.members,
        member.1 ≠ .imo → member.1 ≠ .draught →
        Carried (intervals ops).current mmsi member.1 := by
  obtain ⟨r, entries, s, hrun, hexport, hsnapshot⟩ := jsonoutExport_spec mem ops
  refine ⟨r, _, s, hrun, hexport, hsnapshot.onlyCarried_iff, ?_⟩
  intro msg hmsg htype hm member hmember himo hdraught
  obtain ⟨e, he, -, -, hmembers⟩ := hsnapshot.data_message hmsg htype hm
  rw [hmembers] at hmember
  exact hsnapshot.data_carried he hmember himo hdraught

/-- A class B vessel that sent its name and nothing else is exported with a
draught. -/
theorem class_B_draught :
    ¬ ∀ (mem : Memory) (ops : List CacheOp) (mmsi : Int32),
      ∃ r msgs s, cacheRun mem ops = some r ∧ jsonoutExport r.cache = some (msgs, s) ∧
        OnlyCarried (intervals ops).current msgs mmsi := by
  intro hall
  obtain ⟨r, msgs, s, hrun, hexport, honly⟩ := hall emptyMemory
    [.update (.vesselname 0 244660000 [78, 79, 86, 65] [67, 76, 65, 83, 83, 32, 66])] 244660000
  obtain ⟨r', entries, s', hrun', hexport', hsnapshot⟩ := jsonoutExport_spec emptyMemory
    [.update (.vesselname 0 244660000 [78, 79, 86, 65] [67, 76, 65, 83, 83, 32, 66])]
  obtain rfl := Option.some.inj (hrun.symm.trans hrun')
  obtain ⟨rfl, -⟩ := Prod.mk.inj (Option.some.inj (hexport.symm.trans hexport'))
  rcases hsnapshot.onlyCarried_iff.mp honly with hzero | hname | ⟨call, hcall, -, hdata⟩
  · exact absurd hzero (by decide)
  · exact absurd (hname _ (List.mem_singleton_self _) rfl) (Option.some_ne_none _)
  · rw [List.mem_singleton.mp hcall] at hdata
    cases hdata

end Gnuais
