import Gnuais.AirExport
import Gnuais.Startup

/-!
# From the configuration to the export

The receivers and the cache work as the configuration file says: with an uplink the
positions are exported, and messages of a type that is skipped leave no trace in the
export (`configured_export`).
-/

namespace Gnuais

/-- Messages of a type are to be skipped. -/
def Skips (settings : List Setting) (type : ℕ) : Prop :=
  ∃ i : Fin (maxAisPacketType + 1), .skipType i ∈ settings ∧ (i : ℕ) = type

instance (settings : List Setting) : DecidablePred (Skips settings) := fun type =>
  inferInstanceAs (Decidable (∃ i : Fin (maxAisPacketType + 1), .skipType i ∈ settings ∧ (i : ℕ) = type))

section Configured

variable {F : Type} {ops : FloatOps F} {v : Vars F} {cmd : CmdVars} {settings : List Setting}

/-- The receivers skip the types of the settings. -/
theorem Vars.StartsWith.skipType_iff (h : v.StartsWith ops cmd settings) (mysql : Bool) (type : ℕ) :
    (v.receiverConfig mysql).skipType type = true ↔ Skips settings type := by
  rw [Vars.receiverConfig]
  dsimp only
  split
  · rename_i hlt
    rw [decide_eq_true_iff, h.skipType]
    constructor
    · intro hne
      exact ⟨⟨type, hlt⟩, by_contra fun hnot => hne (if_neg hnot), rfl⟩
    · rintro ⟨i, hi, rfl⟩
      rw [if_pos hi]
      decide
  · rename_i hlt
    refine iff_of_false Bool.false_ne_true ?_
    rintro ⟨i, -, rfl⟩
    exact hlt i.isLt

/-- The cache is there for an uplink. -/
theorem Vars.StartsWith.cachePositions (h : v.StartsWith ops cmd settings) (mysql : Bool)
    (huplink : settings.filterMap uplinkOf ≠ []) :
    (v.receiverConfig mysql).cachePositions = true := by
  rw [Vars.receiverConfig]
  dsimp only
  rw [h.uplinks, Bool.not_eq_true', List.isEmpty_eq_false_iff]
  exact fun hnil => huplink (List.reverse_eq_nil_iff.mp hnil)

end Configured

/-- With an uplink in the file, a position report on the air is in the next export, exactly if
neither coordinate is within 0.0001 degree of zero: with any other settings that let it pass,
and any frames behind it that other senders have sent or whose types are skipped. -/
theorem configured_export {F : Type} (ops : FloatOps F) (behind : ℕ → List UInt8) (cmd : CmdVars)
    (mysql : Bool) {settings : List Setting} (hreadable : ∀ s ∈ settings, s.Readable)
    (hcall : CallFits (lastString .mycall settings))
    (huplink : settings.filterMap uplinkOf ≠ []) (clock : ℕ → ℤ) (mem : Allocated)
    (serial ipc : Bool) (name : UInt8) {m : AirReport}
    (hskip : ¬ Skips settings m.type.toNat) (hmmsi : m.mmsi ≠ 0)
    (before after : List SentFrame) {f : SentFrame} (hcarries : f.Carries m.layout)
    (hlast : ∀ g ∈ after, g.mmsi ≠ m.mmsi.toNat ∨ Skips settings g.type)
    (hlead : ∀ g ∈ (before ++ f :: after).head?, 2 ≤ g.gap) {chunks : List (List Bool)}
    (hchunks : chunks.flatten = signal ((before ++ f :: after).flatMap SentFrame.bits))
    (hlen : ∀ c ∈ chunks, c.length ≤ filteredLen) (cacheMem : Memory) (past : List CacheOp) :
    ∃ v, readConfig ops behind (some (settingsFile settings)) (Vars.initial ops cmd) =
        some (0, v) ∧
      ∃ rx bits calls r msgs s,
        receiverRuns (v.receiverConfig mysql) clock chunks (initReceiver mem serial ipc name) =
          some (rx, bits, calls) ∧
        cacheRun cacheMem (past ++ [.rotate] ++ (cacheCalls calls).map .update) = some r ∧
        jsonoutExport r.cache = some (msgs, s) ∧
        (PositionExported msgs (Int32.ofNat m.mmsi.toNat) m.lat m.lon ↔
          1 / 10000 < |m.lat.value| ∧ 1 / 10000 < |m.lon.value|) := by
  obtain ⟨ret, v, hread, hret, hstarts⟩ :=
    readConfig_passes ops behind cmd (passes_settingsFile hreadable)
  rw [filterMap_settingsFile hreadable] at hret hstarts
  obtain rfl := hret.mpr hcall
  have h := hstarts rfl
  have hunskipped : (v.receiverConfig mysql).skipType m.type.toNat = false :=
    Bool.eq_false_iff.mpr fun htrue => hskip ((h.skipType_iff mysql _).mp htrue)
  exact ⟨v, hread, report_exported (h.cachePositions mysql huplink) clock mem serial ipc name
    hunskipped hmmsi before after hcarries
    (fun g hg => (hlast g hg).imp_right (h.skipType_iff mysql g.type).mpr) hlead hchunks hlen
    cacheMem past⟩

/-- Type 5 is one of the types that can be skipped. -/
theorem five_lt : 5 < maxAisPacketType + 1 := by decide

/-- An uplink, and a type to skip. -/
def uplinkAndSkip : List Setting := [.uplink (ascii "sea") (ascii "http"), .skipType ⟨5, five_lt⟩]

theorem readable_uplinkAndSkip : ∀ s ∈ uplinkAndSkip, s.Readable := by
  refine List.forall_mem_cons.mpr ⟨?_, List.forall_mem_singleton.mpr ?_⟩
  · exact ⟨by decide, trivial, by decide +kernel⟩
  · exact ⟨by decide, (by decide : (5 : Fin (maxAisPacketType + 1)) ≠ 0), by decide +kernel⟩

/-- A frame with static data of the sender that is in the north east. -/
def staticFrame : SentFrame where
  gap := 2
  phase := false
  octets := [20, 54, 214, 214, 228, 0]
  nonempty := by decide
  fits := by decide

/-- The report of a vessel and then its static data, which are skipped. -/
theorem configured_export_skipped : ∃ v : Vars Unit,
    readConfig noFloats (fun _ => []) (some (settingsFile uplinkAndSkip))
      (Vars.initial noFloats CmdVars.initial) = some (0, v) ∧
    ∃ rx bits calls r msgs s,
      receiverRuns (v.receiverConfig false) (fun _ => 0)
          [signal ([northEastFrame, staticFrame].flatMap SentFrame.bits)]
          (initReceiver .zeroed false false 65) = some (rx, bits, calls) ∧
        cacheRun emptyMemory ([] ++ [.rotate] ++ (cacheCalls calls).map .update) = some r ∧
        jsonoutExport r.cache = some (msgs, s) ∧
        (PositionExported msgs 230012345 (AirReport.classB northEast).lat
            (AirReport.classB northEast).lon ↔
          1 / 10000 < |(AirReport.classB northEast).lat.value| ∧
            1 / 10000 < |(AirReport.classB northEast).lon.value|) :=
  configured_export (m := .classB northEast) (f := northEastFrame) noFloats (fun _ => [])
    CmdVars.initial false readable_uplinkAndSkip (fun _ h => by cases h) (by decide) (fun _ => 0)
    .zeroed false false 65 (by decide) (by decide) [] [staticFrame]
    (by unfold SentFrame.Carries; decide +kernel)
    (fun g hg => by obtain rfl := List.mem_singleton.mp hg; exact .inr (by decide +kernel))
    (fun g hg => by obtain rfl := Option.some.inj hg; decide) List.flatten_singleton
    (by decide +kernel) emptyMemory []

end Gnuais
