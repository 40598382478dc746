import Gnuais.AirExport
import Gnuais.ShipTable

/-!
# From the air to the map

The frames a receiver takes off the air, the sentences it writes to the socket, what the map
window makes of them and the ships it draws. A vessel whose position report was received is
drawn where it said it was, until a later frame of the same sender (`air_to_window`).

The window gets one sentence with each read.
-/

namespace Gnuais

open Buffer Bits Layout Registry

/-! ## One frame

A frame gives some sentences, and these give one decoding, whose bits are those of the
frame. `SentFrame.Drawn` joins the two ends. -/

/-- What the window decodes of a frame: its bits, if its message is of a known type. -/
def SentFrame.Drawn (f : SentFrame) (messages : List RBuffer) : Prop :=
  (¬ KnownType (rbufferOf f.octets) ∧ messages = []) ∨
    (KnownType (rbufferOf f.octets) ∧ ∃ rBuffer, messages = [rBuffer] ∧
      HoldsBits rBuffer 0 (f.octets.flatMap octetBE))

/-- The bits of the octets alone. -/
theorem SentFrame.holds_octets (f : SentFrame) :
    HoldsBits (rbufferOf f.octets) 0 (f.octets.flatMap octetBE) := by
  intro i hi
  rw [f.holds_payload i (by rw [payload, List.length_append]; omega), payload,
    List.getElem?_append_left hi]

/-- Closing a frame of a decoder that writes to the socket: the sentences that are written,
and what a window makes of them. -/
theorem close_drawn {cfg : Config} {clock : ℕ → ℤ} {f : SentFrame} {y y' : Tally}
    {calls : List Call} (hipc : y.ipc = true) (hseqnr : y.seqnr ≤ 9)
    (h : close cfg clock (.frame f.collected) y = some (y', calls)) :
    (y'.ipc = true ∧ y'.seqnr ≤ 9) ∧ (∀ text ∈ ipcWrites calls, text ≠ []) ∧
      ∀ gui : GuiState, ∃ gui' guiCalls,
        threaden ((ipcWrites calls).map some) gui = some (gui', guiCalls) ∧
          f.Drawn (decodes guiCalls.flatten) := by
  obtain ⟨⟨-, -, hipc'⟩, ⟨hnone, -, -⟩ | ⟨payload, calls', hframe, haccepted, hobs, rfl⟩⟩ :=
    close_cases h
  · rw [f.accepted_collected] at hnone
    cases hnone
  rw [f.accepted_collected] at haccepted
  obtain ⟨hlen, hbuffer⟩ := Prod.mk.inj (List.cons.inj haccepted).1
  rw [← hlen, ← hbuffer, hipc] at hobs
  have hwrites : ipcWrites (.getdata (payload.length - 22) (frameOf payload) :: calls') =
      ipcWrites calls' := rfl
  rw [hwrites]
  -- a type without a decoder writes no sentence
  rcases getdataObs_some hobs with ⟨hunknown, rfl, hsame⟩ | ⟨hknown, hnext, -⟩
  · refine ⟨⟨hipc'.trans hipc, hsame ▸ hseqnr⟩, fun text ht => absurd ht List.not_mem_nil,
      fun gui => ⟨gui, [], rfl, .inl ⟨hunknown, rfl⟩⟩⟩
  have hnonempty := f.nonempty
  have hfits := f.fits
  have hfill := fillbitsOf_le (8 * f.octets.length)
  have hbits : IsBits (rbufferOf f.octets) := isBits_rbufferOf (by omega)
  obtain ⟨padded, hpadded, hsent⟩ := ipcWrites_getdataObs hobs hknown hbits (by omega) (by omega)
    hseqnr
  have hroom : 8 * f.octets.length + fillbitsOf (8 * f.octets.length) ≤ 450 := by omega
  obtain ⟨padded', hpadded', hbits'⟩ := isBits_padded hbits hroom
  obtain rfl := Option.some.inj (hpadded'.symm.trans hpadded)
  refine ⟨⟨hipc'.trans hipc, hnext ▸ nextSeqnr_le _⟩, ?_, fun gui => ?_⟩
  · rw [hsent]
    exact List.forall_mem_map.mpr fun s _ => s.text_ne_nil
  · -- the sentences of the padded frame, as the window reads them
    obtain ⟨gui', before, last, rBuffer, hrun, -, hbefore, hlast, hheld⟩ :=
      threaden_messageSentences hbits' (by omega) (padded_mod (8 * f.octets.length)) hroom hseqnr
        hfill gui
    refine ⟨gui', _, by rw [hsent]; exact hrun, .inr ⟨hknown, rBuffer, ?_, ?_⟩⟩
    · have hnone : before.flatMap aisdecodes = [] := List.flatMap_eq_nil_iff.mpr hbefore
      rw [decodes_eq, aisdecodes_flatten, List.flatMap_append, hnone, List.nil_append,
        List.flatMap_singleton, hlast]
      rfl
    · intro i hi
      have hi' := hi
      rw [length_octetBits] at hi'
      rw [storeAt_eq _ _ _ (by rw [List.length_replicate]; exact hroom)] at hpadded
      obtain rfl := Option.some.inj hpadded
      have hholds := f.holds_octets i hi
      rw [Nat.zero_add] at hholds ⊢
      rw [hheld i (by omega), getElem?_splice _ _ _ _ (by rw [List.length_replicate]; exact hroom),
        if_neg (by omega), hholds]

/-- The frames of a run, one after the other. -/
theorem closeAll_drawn {cfg : Config} {clock : ℕ → ℤ} (frames : List SentFrame) :
    ∀ {y y' : Tally} {calls : List Call}, y.ipc = true → y.seqnr ≤ 9 →
      closeAll cfg clock (frames.map fun f => .frame f.collected) y = some (y', calls) →
      (∀ text ∈ ipcWrites calls, text ≠ []) ∧ ∀ gui : GuiState, ∃ gui' guiCalls messages,
        threaden ((ipcWrites calls).map some) gui = some (gui', guiCalls) ∧
          decodes guiCalls.flatten = messages.flatten ∧
          List.Forall₂ SentFrame.Drawn frames messages := by
  induction frames with
  | nil =>
    intro y y' calls _ _ h
    obtain ⟨-, rfl⟩ := Prod.mk.inj (Option.some.inj h)
    exact ⟨fun text ht => absurd ht List.not_mem_nil, fun gui => ⟨gui, [], [], rfl, rfl, .nil⟩⟩
  | cons f frames ih =>
    intro y y' calls hipc hseqnr h
    obtain ⟨⟨y₁, calls₁⟩, hclose, h⟩ := Option.bind_eq_some_iff.mp h
    obtain ⟨⟨y₂, calls₂⟩, hrest, h⟩ := Option.bind_eq_some_iff.mp h
    obtain ⟨-, rfl⟩ := Prod.mk.inj (Option.some.inj h)
    obtain ⟨⟨hipc₁, hseqnr₁⟩, hne₁, hdrawn⟩ := close_drawn hipc hseqnr hclose
    obtain ⟨hne₂, hothers⟩ := ih hipc₁ hseqnr₁ hrest
    rw [ipcWrites_append]
    refine ⟨fun text ht => (List.mem_append.mp ht).elim (hne₁ text) (hne₂ text), fun gui => ?_⟩
    obtain ⟨gui₁, guiCalls₁, hrun₁, hframe⟩ := hdrawn gui
    obtain ⟨gui₂, guiCalls₂, messages, hrun₂, hdecodes, hall⟩ := hothers gui₁
    refine ⟨gui₂, guiCalls₁ ++ guiCalls₂, decodes guiCalls₁.flatten :: messages, ?_, ?_,
      .cons hframe hall⟩
    · rw [List.map_append, threaden_append hne₁, hrun₁, Option.bind_some, hrun₂, Option.bind_some]
    · rw [List.flatten_append, List.flatten_cons, ← hdecodes, decodes, List.filterMap_append]
      rfl

/-! ## The reports of some messages

`shipd` is not cleared between messages, so the ship of a message depends on those before
it. For a report of a vessel it does not: all the fields that are drawn are stored. -/

/-- `shipd` after some messages. -/
def shipdAfter (d : ShipData) (messages : List RBuffer) : ShipData :=
  messages.foldl (fun d rBuffer => decodedShip rBuffer d) d

/-- The reports of two stretches. -/
theorem reports_append (messages messages' : List RBuffer) : ∀ d : ShipData,
    reports d (messages ++ messages') =
      reports d messages ++ reports (shipdAfter d messages) messages' := by
  induction messages with
  | nil => exact fun d => rfl
  | cons rBuffer messages ih =>
    intro d
    rw [List.cons_append, reports, ih, reports, List.append_assoc]
    rfl

/-- A message gives one report at most. -/
theorem length_reports_le (messages : List RBuffer) : ∀ d : ShipData,
    (reports d messages).length ≤ messages.length := by
  induction messages with
  | nil => exact fun d => Nat.zero_le _
  | cons rBuffer messages ih =>
    intro d
    have hrest := ih (decodedShip rBuffer d)
    rw [reports, List.length_append, List.length_cons]
    split
    · rw [List.length_singleton]
      omega
    · rw [List.length_nil]
      omega

/-- A report is stored under the number in its message. -/
theorem IsReport.mmsi {rBuffer : RBuffer} (h : IsReport rBuffer) (d : ShipData) :
    (decodedShip rBuffer d).mmsi = hentenVal 8 30 rBuffer := by
  unfold IsReport at h
  by_cases h4 : cUChar (hentenVal 0 6 rBuffer) = 4
  · rw [decodedShip_type4 d h4]
    rfl
  · rw [decodedShip_type1 d (by omega)]
    rfl

/-- The numbers of the reports are those of their messages. -/
theorem mmsi_of_mem_reports {s : Ship} (messages : List RBuffer) : ∀ {d : ShipData},
    s ∈ reports d messages → ∃ rBuffer ∈ messages, s.mmsi = hentenVal 8 30 rBuffer := by
  induction messages with
  | nil => exact fun h => absurd h List.not_mem_nil
  | cons rBuffer messages ih =>
    intro d h
    rw [reports, List.mem_append] at h
    rcases h with h | h
    · split at h
      · rw [List.mem_singleton.mp h]
        exact ⟨rBuffer, List.mem_cons_self .., IsReport.mmsi ‹_› d⟩
      · cases h
    · obtain ⟨rBuffer', hmem, hmmsi⟩ := ih h
      exact ⟨rBuffer', List.mem_cons_of_mem _ hmem, hmmsi⟩

/-- Each frame is one message at most. -/
theorem length_messages_le {frames : List SentFrame} {messages : List (List RBuffer)}
    (h : List.Forall₂ SentFrame.Drawn frames messages) :
    messages.flatten.length ≤ frames.length := by
  induction h with
  | nil => exact Nat.le_refl _
  | @cons f m frames messages hdrawn _ ih =>
    rw [List.flatten_cons, List.length_append, List.length_cons]
    rcases hdrawn with ⟨-, rfl⟩ | ⟨-, rBuffer, rfl, -⟩
    · rw [List.length_nil]
      omega
    · rw [List.length_singleton]
      omega

/-- The numbers in the messages of frames with five octets or more are the senders. -/
theorem mmsi_of_mem_messages {frames : List SentFrame} {messages : List (List RBuffer)}
    (h : List.Forall₂ SentFrame.Drawn frames messages) (hlen : ∀ f ∈ frames, 5 ≤ f.octets.length)
    {rBuffer : RBuffer} (hmem : rBuffer ∈ messages.flatten) :
    ∃ f ∈ frames, hentenVal 8 30 rBuffer = f.mmsi := by
  induction h with
  | nil => cases hmem
  | @cons f m frames messages hdrawn _ ih =>
    obtain ⟨hfive, hlen⟩ := List.forall_mem_cons.mp hlen
    rw [List.flatten_cons, List.mem_append] at hmem
    rcases hmem with hmem | hmem
    · rcases hdrawn with ⟨-, rfl⟩ | ⟨-, rBuffer', rfl, hholds⟩
      · cases hmem
      · rw [List.mem_singleton.mp hmem]
        refine ⟨f, List.mem_cons_self .., ?_⟩
        rw [hentenVal_field hholds (by rw [length_octetBits]; omega), SentFrame.mmsi, field, field,
          SentFrame.payload, List.drop_append_of_le_length (by rw [length_octetBits]; omega),
          List.take_append_of_le_length (by rw [List.length_drop, length_octetBits]; omega)]
    · obtain ⟨g, hg, hmmsi⟩ := ih hlen hmem
      exact ⟨g, List.mem_cons_of_mem _ hg, hmmsi⟩

/-! ## All the way

The table has room as long as there are fewer than `MAXSHIPS` messages before the report.
Later frames of other senders may fill it up, but they do not take its place. -/

/-- The ship a position report describes. -/
def PositionReport.ship (m : PositionReport) : Ship where
  mmsi := m.mmsi.toNat
  longitude := scaled m.longitude.toInt 600000
  latitude := scaled m.latitude.toInt 600000
  heading := .ofInt m.heading.toNat
  course := .div (.ofInt m.course.toNat) (.ofInt 10)
  type := 1

/-- The window stores a position report as it was sent. -/
theorem decodedShip_report (m : PositionReport) {rBuffer : RBuffer}
    (hholds : HoldsBits rBuffer 0 (pack m.layout)) (d : ShipData) :
    IsReport rBuffer ∧ (decodedShip rBuffer d).ship = m.ship := by
  have hread {i w pos : ℕ} {v : BitVec w} (hf : m.layout[i]? = some (.number v))
      (hpos : width (m.layout.take i) = pos) (hroom : pos + w ≤ 600) :
      hentenVal pos w rBuffer = v.toNat := by
    have hhenten := henten_number hholds hf ((Nat.zero_add _).trans hpos)
    rw [protodecHenten_eq rBuffer hroom] at hhenten
    exact Option.some.inj hhenten
  have htype : hentenVal 0 6 rBuffer = m.type.toNat := hread (i := 0) rfl rfl (by decide)
  have hmmsi : hentenVal 8 30 rBuffer = m.mmsi.toNat :=
    hread (i := 2) rfl (by simp [PositionReport.layout]) (by decide)
  have hlon : hentenVal 61 28 rBuffer = m.longitude.toNat :=
    hread (i := 7) rfl (by simp [PositionReport.layout]) (by decide)
  have hlat : hentenVal 89 27 rBuffer = m.latitude.toNat :=
    hread (i := 8) rfl (by simp [PositionReport.layout]) (by decide)
  have hcourse : hentenVal 116 12 rBuffer = m.course.toNat :=
    hread (i := 9) rfl (by simp [PositionReport.layout]) (by decide)
  have hheading : hentenVal 128 9 rBuffer = m.heading.toNat :=
    hread (i := 10) rfl (by simp [PositionReport.layout]) (by decide)
  have hvessel : cUChar (hentenVal 0 6 rBuffer) = 1 ∨ cUChar (hentenVal 0 6 rBuffer) = 2 ∨
      cUChar (hentenVal 0 6 rBuffer) = 3 := by
    rw [htype]
    rcases m.isPosition with h | h | h <;> rw [h] <;> decide
  refine ⟨by unfold IsReport; omega, ?_⟩
  rw [decodedShip_type1 d hvessel, ShipData.ship, type1Ship, PositionReport.ship, hmmsi, hlon, hlat,
    hcourse, hheading, longitudeOf_toNat, latitudeOf_toNat]

/-- A frame with a position report is decoded. -/
theorem SentFrame.Drawn.of_carries {f : SentFrame} {m : PositionReport} {messages : List RBuffer}
    (h : f.Drawn messages) (hcarries : f.Carries m.layout) :
    ∃ rBuffer, messages = [rBuffer] ∧ HoldsBits rBuffer 0 (pack m.layout) := by
  rcases h with ⟨hunknown, -⟩ | ⟨-, rBuffer, rfl, hholds⟩
  · obtain ⟨htype, -⟩ := (AirReport.vessel m).hentenVal_head hcarries.holds
    refine absurd ?_ hunknown
    rw [KnownType, htype]
    exact (AirReport.vessel m).known
  · obtain ⟨rest, hrest⟩ := hcarries
    refine ⟨rBuffer, rfl, fun i hi => ?_⟩
    rw [hholds i (by rw [← hrest, List.length_append]; omega), ← hrest,
      List.getElem?_append_left hi]

/-- Lists that correspond are split at the same place. -/
theorem forall₂_append {α β : Type} {R : α → β → Prop} {xs xs' : List α} {ys : List β}
    (h : List.Forall₂ R (xs ++ xs') ys) :
    ∃ ys₁ ys₂, List.Forall₂ R xs ys₁ ∧ List.Forall₂ R xs' ys₂ ∧ ys = ys₁ ++ ys₂ :=
  ⟨ys.take xs.length, ys.drop xs.length, (List.forall₂_take_append ys xs xs' h.flip).flip,
    (List.forall₂_drop_append ys xs xs' h.flip).flip, (List.take_append_drop ..).symm⟩

/-- A position report that was received is drawn as it was sent, under its number and under
no other ship's: with any frames before it, as long as they leave room, with any frames of
other senders behind it that are long enough to have one, and whatever the memory of the
window held. -/
theorem air_to_window {cfg : Config} (clock : ℕ → ℤ) (mem : Allocated) (serial : Bool)
    (name : UInt8) (m : PositionReport) (before after : List SentFrame) {f : SentFrame}
    (hcarries : f.Carries m.layout) (hroom : before.length + 1 < maxships)
    (hlast : ∀ g ∈ after, g.mmsi ≠ m.mmsi.toNat ∧ 5 ≤ g.octets.length)
    (hlead : ∀ g ∈ (before ++ f :: after).head?, 2 ≤ g.gap) {chunks : List (List Bool)}
    (hchunks : chunks.flatten = signal ((before ++ f :: after).flatMap SentFrame.bits))
    (hlen : ∀ c ∈ chunks, c.length ≤ filteredLen) (gui : GuiState) :
    ∃ rx bits calls gui' guiCalls,
      receiverRuns cfg clock chunks (initReceiver mem serial true name) = some (rx, bits, calls) ∧
      threaden ((ipcWrites calls).map some) gui = some (gui', guiCalls) ∧
      m.ship ∈ shipTable guiCalls.flatten ∧
      ((shipTable guiCalls.flatten).map Ship.mmsi).Nodup := by
  obtain ⟨rx, calls, hrun, hclose⟩ := receiverRuns_frames cfg clock mem serial true name hlead
    hchunks hlen
  obtain ⟨-, hdrawn⟩ := closeAll_drawn _ rfl (show (0 : UInt8) ≤ 9 by decide) hclose
  obtain ⟨gui', guiCalls, messages, hthreaden, hdecodes, hall⟩ := hdrawn gui
  refine ⟨rx, _, calls, gui', guiCalls, hrun, hthreaden, ?_⟩
  -- the messages before, of and behind the frame
  obtain ⟨m₁, m₂₃, hm₁, hm₂₃, rfl⟩ := forall₂_append hall
  cases hm₂₃ with
  | @cons _ m₂ _ m₃ hframe hm₃ =>
  obtain ⟨rBuffer, rfl, hholds⟩ := hframe.of_carries hcarries
  obtain ⟨stale, hstale, htable⟩ := ShipRun.exists_before (threaden_shipRun _ hthreaden) []
  have hreports : reports gui.shipd (decodes guiCalls.flatten) =
      reports gui.shipd m₁.flatten ++ m.ship ::
        reports (decodedShip rBuffer (shipdAfter gui.shipd m₁.flatten)) m₃.flatten := by
    obtain ⟨hreport, hship⟩ := decodedShip_report m hholds (shipdAfter gui.shipd m₁.flatten)
    rw [hdecodes, List.flatten_append, List.flatten_cons, List.singleton_append, reports_append,
      reports, if_pos hreport, hship, List.singleton_append]
  -- nothing behind it is of the same sender
  have hothers : ∀ s ∈ reports (decodedShip rBuffer (shipdAfter gui.shipd m₁.flatten)) m₃.flatten,
      s.mmsi ≠ m.ship.mmsi := by
    intro s hs heq
    obtain ⟨rBuffer', hmem, hmmsi⟩ := mmsi_of_mem_reports _ hs
    obtain ⟨g, hg, hsender⟩ := mmsi_of_mem_messages hm₃ (fun g hg => (hlast g hg).2) hmem
    exact (hlast g hg).1 (hsender.symm.trans (hmmsi.symm.trans heq))
  -- each frame before it is one ship at most, and one may come from `shipd`
  have hfew : (stale ++ reports gui.shipd m₁.flatten).length < maxships := by
    have hstale_len : stale.length ≤ 1 := by
      rcases hstale with rfl | ⟨-, rfl⟩
      · exact Nat.zero_le _
      · exact Nat.le_refl _
    have hreports_len := length_reports_le m₁.flatten gui.shipd
    have hmessages_len := length_messages_le hm₁
    rw [List.length_append]
    omega
  have heq := (shipTable_eq_puts guiCalls.flatten).trans htable
  rw [hreports, ← List.append_assoc] at heq
  refine ⟨?_, heq ▸ nodup_puts ..⟩
  rw [heq]
  refine (mem_puts ..).mpr ⟨mem_take_firsts Ship.mmsi maxships hfew m.ship _, ?_⟩
  rw [List.append_cons, last_append Ship.mmsi hothers, last_concat, if_pos rfl]

/-- A position report of a vessel at 60 degrees north, 10 degrees east. -/
def outward : PositionReport where
  type := 2
  isPosition := .inr (.inl rfl)
  repeatIndicator := 0
  mmsi := 257001234
  status := 0
  rateOfTurn := 0
  speed := 123
  accuracy := 0
  longitude := 6000000
  latitude := 36000000
  course := 900
  heading := 91

/-- It in a frame. -/
def outwardFrame : SentFrame where
  gap := 2
  phase := false
  octets := [8, 61, 70, 28, 72, 0, 7, 176, 45, 198, 192, 34, 85, 16, 3, 132, 45, 128, 0, 0, 0]
  nonempty := by decide
  fits := by decide

/-- It is received and then a frame of another sender. -/
theorem air_to_window_outward :
    ∃ rx bits calls gui' guiCalls,
      receiverRuns .silent (fun _ => 0)
        [signal ([outwardFrame, northEastFrame].flatMap SentFrame.bits)]
        (initReceiver .zeroed false true 65) = some (rx, bits, calls) ∧
      threaden ((ipcWrites calls).map some)
        (.initial (.replicate 256 0) (.replicate 500 0) zeroShip) = some (gui', guiCalls) ∧
      outward.ship ∈ shipTable guiCalls.flatten ∧
      ((shipTable guiCalls.flatten).map Ship.mmsi).Nodup :=
  air_to_window (fun _ => 0) .zeroed false 65 outward [] [northEastFrame]
    (by unfold SentFrame.Carries; decide +kernel) (by decide)
    (fun g hg => by obtain rfl := List.mem_singleton.mp hg; decide +kernel)
    (fun g hg => by obtain rfl := Option.some.inj hg; decide) List.flatten_singleton
    (by decide +kernel) _

end Gnuais
