import Gnuais.Transport
import Gnuais.Lib.Registry

/-!
# The ships of the map window (`gui.c`)

The thread that reads the sentences hands each position to `updateship`, which keeps the
ships that are drawn: `ships`, up to `numberofships`. The thread calls it after every
sentence, whatever the sentence was, as long as `shipd` looks like a position report, so
most of its calls repeat an earlier one.

* `updateship` — the function, `shipTable` — the ships after the calls of a run.
* `updateship_run` — the ships are those of the first numbers to come, each with its last
  data.
* `shipTable_reports` — the repeated calls change nothing: the ships are those of the
  position reports that were decoded, and of what `shipd` held before the first one.
-/

namespace Gnuais

open Buffer Registry

/-! ## `updateship`

The function looks for the number from the front. A ship that is not found is added at the
end if there is room; if not, it is not drawn. -/

/-- `MAXSHIPS` -/
def maxships : ℕ := 1000

/-- `ship`. `mmsi` and `type` are natural numbers for `int`, as in `ShipData`. -/
structure Ship where
  /-- what the ships are told apart by -/
  mmsi : ℕ
  /-- the fields of the report that came last -/
  longitude : FloatExpr
  latitude : FloatExpr
  heading : FloatExpr
  course : FloatExpr
  type : ℕ
  deriving DecidableEq, Repr

/-- The loop over the ships: the first with the number gets the new data. -/
def updateLoop (mmsi : ℕ) (longitude latitude heading course : FloatExpr) (type : ℕ) :
    List Ship → Option (List Ship)
  | [] => none
  | ship :: ships =>
    if ship.mmsi = mmsi then some ({ ship with longitude, latitude, heading, course, type } :: ships)
    else (updateLoop mmsi longitude latitude heading course type ships).map (ship :: ·)

/-- `updateship`, on the ships up to `numberofships` There is no way to take a ship out of
the table. -/
def updateship (mmsi : ℕ) (longitude latitude heading course : FloatExpr) (type : ℕ)
    (ships : List Ship) : List Ship :=
  match updateLoop mmsi longitude latitude heading course type ships with
  | some ships => ships
  | none =>
    if ships.length < maxships then
      ships ++ [{ mmsi, longitude, latitude, heading, course, type }]
    -- `Too many ships saved`
    else ships

/-- The ship that a call of `threaden` describes. -/
def ShipData.ship (shipd : ShipData) : Ship where
  mmsi := shipd.mmsi
  longitude := shipd.longitude
  latitude := shipd.latitude
  heading := shipd.heading
  course := shipd.course
  type := shipd.type

/-- The ships after a call. -/
def GuiCall.shipTable (ships : List Ship) : GuiCall → List Ship
  | .aisdecode _ _ => ships
  | .updateship d =>
    Gnuais.updateship d.mmsi d.longitude d.latitude d.heading d.course d.type ships

/-- The ships after the calls of a run. -/
def shipTable (calls : List GuiCall) : List Ship := calls.foldl GuiCall.shipTable []

/-! ## The table

No number ever stands twice in the table, since a ship is only added if its number is not
found. On such a table `updateship` is an insertion with an upper bound, as the library
has it. -/

/-- A number that is not in the table is not found. -/
theorem updateLoop_of_not_mem {d : Ship} {ships : List Ship} (h : d.mmsi ∉ ships.map Ship.mmsi) :
    updateLoop d.mmsi d.longitude d.latitude d.heading d.course d.type ships = none := by
  induction ships with
  | nil => rfl
  | cons ship ships ih =>
    rw [List.map_cons, List.mem_cons, not_or] at h
    rw [updateLoop, if_neg (Ne.symm h.1), ih h.2, Option.map_none]

/-- Where no number stands twice, the first ship with a number is the only one. -/
theorem updateLoop_of_mem {d : Ship} {ships : List Ship} (h : d.mmsi ∈ ships.map Ship.mmsi)
    (hnodup : (ships.map Ship.mmsi).Nodup) :
    updateLoop d.mmsi d.longitude d.latitude d.heading d.course d.type ships =
      some (ships.map fun s => if s.mmsi = d.mmsi then d else s) := by
  induction ships with
  | nil => cases h
  | cons ship ships ih =>
    rw [List.map_cons, List.nodup_cons] at hnodup
    rw [updateLoop, List.map_cons]
    by_cases hship : ship.mmsi = d.mmsi
    · have hrest : ships.map (fun s => if s.mmsi = d.mmsi then d else s) = ships := by
        refine (List.map_congr_left fun s hs => ?_).trans (List.map_id ships)
        refine if_neg fun heq => hnodup.1 ?_
        rw [hship, ← heq]
        exact List.mem_map_of_mem hs
      rw [if_pos hship, if_pos hship, hrest, hship]
    · rw [List.map_cons, List.mem_cons] at h
      rw [if_neg hship, if_neg hship, ih (h.resolve_left (Ne.symm hship)) hnodup.2, Option.map_some]

/-- `updateship` is the table of the library on ships with different numbers. -/
theorem updateship_eq_put (d : Ship) {ships : List Ship} (hnodup : (ships.map Ship.mmsi).Nodup) :
    updateship d.mmsi d.longitude d.latitude d.heading d.course d.type ships =
      put Ship.mmsi maxships d ships := by
  rw [updateship, put]
  by_cases h : d.mmsi ∈ ships.map Ship.mmsi
  · rw [updateLoop_of_mem h hnodup, if_pos h]
  · rw [updateLoop_of_not_mem h, if_neg h]

/-- The ship in a call. -/
def GuiCall.update : GuiCall → Option Ship
  | .aisdecode _ _ => none
  | .updateship d => some d.ship

/-- The ships in the calls. -/
def updates (calls : List GuiCall) : List Ship := calls.filterMap GuiCall.update

/-- The ships of a run in two parts. -/
theorem updates_append (calls calls' : List GuiCall) :
    updates (calls ++ calls') = updates calls ++ updates calls' := List.filterMap_append

/-- One call more. -/
theorem shipTable_concat (calls : List GuiCall) (call : GuiCall) :
    shipTable (calls ++ [call]) = call.shipTable (shipTable calls) := by
  rw [shipTable, List.foldl_append]
  rfl

/-- The table of a run is that of its ships, one after the other. -/
theorem shipTable_eq_puts (calls : List GuiCall) :
    shipTable calls = puts Ship.mmsi maxships (updates calls) := by
  induction calls using List.reverseRecOn with
  | nil => rfl
  | append_singleton calls call ih =>
    rw [shipTable_concat, updates_append, ih]
    cases call with
    | aisdecode lengde rBuffer => exact congrArg (puts Ship.mmsi maxships) (List.append_nil _).symm
    | updateship d =>
      exact (updateship_eq_put d.ship (nodup_puts Ship.mmsi maxships _)).trans
        (puts_concat Ship.mmsi maxships _ d.ship).symm

/-- Whatever calls of `updateship` come, the ships are those with the first `MAXSHIPS`
numbers to come, in that order, each with the data of the last call for it. -/
theorem updateship_run (calls : List GuiCall) :
    (shipTable calls).map Ship.mmsi = (firsts Ship.mmsi (updates calls)).take maxships ∧
      ∀ ship, ship ∈ shipTable calls ↔
        ship.mmsi ∈ (firsts Ship.mmsi (updates calls)).take maxships ∧
          last Ship.mmsi (updates calls) ship.mmsi = some ship := by
  rw [shipTable_eq_puts]
  exact ⟨map_puts .., fun ship => mem_puts ..⟩

/-! ## The calls of the thread

At the end of every pass that takes a sentence the ship in `shipd` is drawn, whether the
pass decoded a message or not. `ShipRun` says which sequences of calls come out of this. -/

/-- What `threaden` takes for a position report. -/
def ShipData.Shown (d : ShipData) : Prop := d.type = 1 ∨ d.type = 2 ∨ d.type = 3 ∨ d.type = 4

instance (d : ShipData) : Decidable d.Shown := inferInstanceAs (Decidable (_ ∨ _ ∨ _ ∨ _))

/-- The call at the end of the loop body. -/
def ShipData.drawn (d : ShipData) : List GuiCall := if d.Shown then [.updateship d] else []

/-- The calls of the thread, with what they leave in `shipd`: the ship in it again, or a
message and then the ship that is in it now. It forgets everything of the pass but what
matters to the table, so its lemmas need not mention the arrays. -/
inductive ShipRun : ShipData → List GuiCall → ShipData → Prop where
  /-- no call -/
  | nil (d : ShipData) : ShipRun d [] d
  /-- a sentence that ends no message: the ship is drawn again -/
  | again {d d' : ShipData} {calls : List GuiCall} (hshown : d.Shown) (h : ShipRun d calls d') :
      ShipRun d (.updateship d :: calls) d'
  /-- a message is decoded, and then the ship is drawn if there is one -/
  | decode {d d' : ShipData} {calls : List GuiCall} (lengde : ℕ) (rBuffer : RBuffer)
      (h : ShipRun (decodedShip rBuffer d) calls d') :
      ShipRun d (.aisdecode lengde rBuffer :: ((decodedShip rBuffer d).drawn ++ calls)) d'

namespace ShipRun

theorem append {d d' d'' : ShipData} {calls calls' : List GuiCall} (h : ShipRun d calls d')
    (h' : ShipRun d' calls' d'') : ShipRun d (calls ++ calls') d'' := by
  induction h with
  | nil d => exact h'
  | again hshown _ ih => exact .again hshown (ih h')
  | decode lengde rBuffer _ ih =>
    rw [List.cons_append, List.append_assoc]
    exact .decode lengde rBuffer (ih h')

theorem drawn (d : ShipData) : ShipRun d d.drawn d := by
  unfold ShipData.drawn
  split
  · exact .again ‹_› (.nil d)
  · exact .nil d

end ShipRun

/-- `aisdecode` stores what the message in `r_buffer` says. -/
theorem aisdecode_shipd {nmea : AisLine} {rBuffer rBuffer' : RBuffer} {d d' : ShipData} {lengde : ℕ}
    (h : aisdecode nmea rBuffer d = some (lengde, rBuffer', d')) : d' = decodedShip rBuffer' d := by
  obtain ⟨letters, -, h⟩ := Option.bind_eq_some_iff.mp h
  obtain ⟨⟨lengde₁, rBuffer₁⟩, -, h⟩ := Option.bind_eq_some_iff.mp h
  dsimp only at h
  rw [dispatchType_eq] at h
  obtain ⟨-, h⟩ := Prod.mk.inj (Option.some.inj h)
  obtain ⟨rfl, rfl⟩ := Prod.mk.inj h
  rfl

/-- The end of the loop body draws what is in `shipd`. -/
theorem drawn_eq (d : ShipData) (calls : List GuiCall) (st : GuiState) :
    (if d.type ≠ 1 ∧ d.type ≠ 2 ∧ d.type ≠ 3 ∧ d.type ≠ 4 then some (st, calls)
      else some (st, calls ++ [.updateship d])) = some (st, calls ++ d.drawn) := by
  rw [ShipData.drawn]
  by_cases h : d.Shown
  · rw [if_pos h, if_neg]
    rintro ⟨h₁, h₂, h₃, h₄⟩
    rcases h with h | h | h | h <;> contradiction
  · rw [if_neg h, if_pos, List.append_nil]
    simpa only [ShipData.Shown, not_or] using h

/-- The functions of a pass, from the inside out. -/
theorem finishSentence_ships {sentences sentencenumb : ℤ} {st st' : GuiState}
    {calls : List GuiCall} (h : finishSentence sentences sentencenumb st = some (st', calls)) :
    ShipRun st.shipd calls st'.shipd := by
  rw [finishSentence] at h
  split at h
  · obtain ⟨aisline, -, h⟩ := Option.bind_eq_some_iff.mp h
    obtain ⟨⟨lengde, rBuffer, shipd⟩, haisdecode, h⟩ := Option.bind_eq_some_iff.mp h
    have heq := (drawn_eq shipd [.aisdecode lengde rBuffer] _).symm.trans h
    obtain ⟨rfl, rfl⟩ := Prod.mk.inj (Option.some.inj heq)
    have hshipd := aisdecode_shipd haisdecode
    subst hshipd
    have hrest := ShipRun.decode (d := st.shipd) lengde rBuffer (.nil _)
    rwa [List.append_nil] at hrest
  · have heq := (drawn_eq st.shipd [] _).symm.trans h
    obtain ⟨rfl, rfl⟩ := Prod.mk.inj (Option.some.inj heq)
    exact ShipRun.drawn st.shipd

theorem takeSentence_ships {m r : ℕ} {st st' : GuiState} {calls : List GuiCall}
    (h : takeSentence m r st = some (st', calls)) : ShipRun st.shipd calls st'.shipd := by
  rw [takeSentence] at h
  obtain ⟨k, -, h⟩ := Option.bind_eq_some_iff.mp h
  obtain ⟨sentences, -, h⟩ := Option.bind_eq_some_iff.mp h
  obtain ⟨sentencenumb, -, h⟩ := Option.bind_eq_some_iff.mp h
  split at h
  · obtain ⟨rfl, rfl⟩ := Prod.mk.inj (Option.some.inj h)
    exact .nil _
  · obtain ⟨⟨aisline, lettersread⟩, -, h⟩ := Option.bind_eq_some_iff.mp h
    have hships := finishSentence_ships h
    exact hships

theorem threadenRead_ships {bytes : List UInt8} {st st' : GuiState} {calls : List GuiCall}
    (h : threadenRead bytes st = some (st', calls)) : ShipRun st.shipd calls st'.shipd := by
  rw [threadenRead] at h
  obtain ⟨nmeabuffer, -, h⟩ := Option.bind_eq_some_iff.mp h
  obtain ⟨nmeabuffer', -, h⟩ := Option.bind_eq_some_iff.mp h
  obtain ⟨m, -, h⟩ := Option.bind_eq_some_iff.mp h
  split at h
  · obtain ⟨rfl, rfl⟩ := Prod.mk.inj (Option.some.inj h)
    exact .nil _
  · obtain ⟨starts, -, h⟩ := Option.bind_eq_some_iff.mp h
    split at h
    · have hships := takeSentence_ships h
      exact hships
    · obtain ⟨rfl, rfl⟩ := Prod.mk.inj (Option.some.inj h)
      exact .nil _

/-- The calls of a run, read after read. -/
theorem threaden_shipRun (reads : List (Option (List UInt8))) :
    ∀ {st st' : GuiState} {calls : List (List GuiCall)},
      threaden reads st = some (st', calls) → ShipRun st.shipd calls.flatten st'.shipd := by
  induction reads with
  | nil =>
    intro st st' calls h
    obtain ⟨rfl, rfl⟩ := Prod.mk.inj (Option.some.inj h)
    exact .nil _
  | cons read reads ih =>
    intro st st' calls h
    rcases read with _ | (_ | ⟨c, bytes⟩)
    · rw [threaden] at h
      obtain ⟨nmeabuffer, -, h⟩ := Option.bind_eq_some_iff.mp h
      obtain ⟨⟨st₁, rest⟩, hrest, h⟩ := Option.bind_eq_some_iff.mp h
      obtain ⟨rfl, rfl⟩ := Prod.mk.inj (Option.some.inj h)
      have hships := ih hrest
      exact hships
    · rw [threaden] at h
      obtain ⟨rfl, rfl⟩ := Prod.mk.inj (Option.some.inj h)
      exact .nil _
    · rw [threaden] at h
      · obtain ⟨⟨st₁, calls₁⟩, hread, h⟩ := Option.bind_eq_some_iff.mp h
        obtain ⟨⟨st₂, rest⟩, hrest, h⟩ := Option.bind_eq_some_iff.mp h
        obtain ⟨rfl, rfl⟩ := Prod.mk.inj (Option.some.inj h)
        rw [List.flatten_cons]
        exact (threadenRead_ships hread).append (ih hrest)
      · exact List.cons_ne_nil _ _

/-! ## The reports

A call that repeats the ship of the call before changes nothing in the table. So the table
is that of the reports alone, apart from what `shipd` held before the first one. -/

/-- The message is a position report that `aisdecode` stores. -/
def IsReport (rBuffer : RBuffer) : Prop :=
  1 ≤ cUChar (hentenVal 0 6 rBuffer) ∧ cUChar (hentenVal 0 6 rBuffer) ≤ 4

instance (rBuffer : RBuffer) : Decidable (IsReport rBuffer) := inferInstanceAs (Decidable (_ ∧ _))

/-- The ships of the position reports among some messages. A station's report leaves
heading and course as they were, so the messages are followed one after the other. Each
report is stored over the one before it. -/
def reports : ShipData → List RBuffer → List Ship
  | _, [] => []
  | d, rBuffer :: rest =>
    (if IsReport rBuffer then [(decodedShip rBuffer d).ship] else []) ++
      reports (decodedShip rBuffer d) rest

/-- What a message leaves: a report is shown, static data are not, and any other message
changes nothing. -/
theorem decodedShip_cases (rBuffer : RBuffer) (d : ShipData) :
    (IsReport rBuffer ∧ (decodedShip rBuffer d).Shown) ∨
      (¬ IsReport rBuffer ∧ (¬ (decodedShip rBuffer d).Shown ∨ decodedShip rBuffer d = d)) := by
  unfold IsReport
  by_cases h1 : cUChar (hentenVal 0 6 rBuffer) = 1 ∨ cUChar (hentenVal 0 6 rBuffer) = 2 ∨
      cUChar (hentenVal 0 6 rBuffer) = 3
  · rw [decodedShip_type1 d h1]
    exact .inl ⟨by omega, .inl rfl⟩
  by_cases h4 : cUChar (hentenVal 0 6 rBuffer) = 4
  · rw [decodedShip_type4 d h4]
    exact .inl ⟨by omega, .inr (.inr (.inr rfl))⟩
  refine .inr ⟨by omega, ?_⟩
  by_cases h5 : cUChar (hentenVal 0 6 rBuffer) = 5
  · rw [decodedShip_type5 d h5]
    exact .inl (by simp [type5Ship, ShipData.Shown])
  · right
    rw [decodedShip]
    split <;> simp_all

/-- The ship of the end of a pass, if it is shown. -/
theorem updates_drawn (d : ShipData) : updates d.drawn = if d.Shown then [d.ship] else [] := by
  unfold ShipData.drawn
  split <;> rfl

theorem updates_decode (lengde : ℕ) (rBuffer : RBuffer) (d : ShipData) (calls : List GuiCall) :
    updates (.aisdecode lengde rBuffer :: (d.drawn ++ calls)) =
      (if d.Shown then [d.ship] else []) ++ updates calls :=
  (updates_append ..).trans (congrArg (· ++ updates calls) (updates_drawn d))

theorem decodes_decode (lengde : ℕ) (rBuffer : RBuffer) (d : ShipData) (calls : List GuiCall) :
    decodes (.aisdecode lengde rBuffer :: (d.drawn ++ calls)) = rBuffer :: decodes calls := by
  unfold ShipData.drawn
  split <;> rfl

/-- Ships come to the table. -/
def putAll (xs ships : List Ship) : List Ship :=
  ships.foldl (fun xs s => put Ship.mmsi maxships s xs) xs

/-- From ships among which the one in `shipd` is already, if it is shown. -/
theorem ShipRun.putAll_eq {d d' : ShipData} {calls : List GuiCall} (h : ShipRun d calls d') :
    ∀ xs : List Ship, (d.Shown → put Ship.mmsi maxships d.ship xs = xs) →
      putAll xs (updates calls) = putAll xs (reports d (decodes calls)) := by
  induction h with
  | nil d => exact fun _ _ => rfl
  | @again d d' calls hshown h ih =>
    intro xs hxs
    have hcons : putAll xs (updates (.updateship d :: calls)) =
        putAll (put Ship.mmsi maxships d.ship xs) (updates calls) := rfl
    rw [hcons, hxs hshown]
    exact ih xs hxs
  | @decode d d' calls lengde rBuffer h ih =>
    intro xs hxs
    rw [updates_decode, decodes_decode, reports]
    rcases decodedShip_cases rBuffer d with ⟨hreport, hshown⟩ | ⟨hnot, hquiet⟩
    · rw [if_pos hshown, if_pos hreport]
      exact ih _ fun _ => put_put ..
    · rw [if_neg hnot]
      by_cases hshown : (decodedShip rBuffer d).Shown
      · have hsame := hquiet.resolve_left (not_not.mpr hshown)
        rw [hsame] at hshown ih ⊢
        have hcons : putAll xs ([d.ship] ++ updates calls) =
            putAll (put Ship.mmsi maxships d.ship xs) (updates calls) := rfl
        rw [if_pos hshown, hcons, hxs hshown]
        exact ih xs hxs
      · rw [if_neg hshown]
        exact ih _ fun h => absurd h hshown

/-- From any ships. The one that `shipd` holds from the start comes first if a call is made
before a message that is stored. -/
theorem ShipRun.exists_before {d d' : ShipData} {calls : List GuiCall} (h : ShipRun d calls d')
    (xs : List Ship) : ∃ before, (before = [] ∨ d.Shown ∧ before = [d.ship]) ∧
      putAll xs (updates calls) = putAll xs (before ++ reports d (decodes calls)) := by
  cases h with
  | nil d => exact ⟨[], .inl rfl, rfl⟩
  | @again d d' calls hshown h =>
    refine ⟨[d.ship], .inr ⟨hshown, rfl⟩, ?_⟩
    exact h.putAll_eq (put Ship.mmsi maxships d.ship xs) fun _ => put_put ..
  | @decode d d' calls lengde rBuffer h =>
    rw [updates_decode, decodes_decode, reports]
    rcases decodedShip_cases rBuffer d with ⟨hreport, hshown⟩ | ⟨hnot, hquiet⟩
    · refine ⟨[], .inl rfl, ?_⟩
      rw [if_pos hshown, if_pos hreport]
      exact h.putAll_eq (put Ship.mmsi maxships _ xs) fun _ => put_put ..
    · rw [if_neg hnot]
      by_cases hshown : (decodedShip rBuffer d).Shown
      · have hsame := hquiet.resolve_left (not_not.mpr hshown)
        rw [hsame] at hshown h ⊢
        refine ⟨[d.ship], .inr ⟨hshown, rfl⟩, ?_⟩
        rw [if_pos hshown]
        exact h.putAll_eq (put Ship.mmsi maxships d.ship xs) fun _ => put_put ..
      · refine ⟨[], .inl rfl, ?_⟩
        rw [if_neg hshown]
        exact h.putAll_eq xs fun hd => absurd hd hshown

/-- Whatever the thread reads, the ships are those of the position reports it decodes, and
before them at most the one that `shipd` held before it was ever stored to: the calls that
repeat a ship change nothing. -/
theorem threaden_ships {reads : List (Option (List UInt8))} {st st' : GuiState}
    {calls : List (List GuiCall)} (hrun : threaden reads st = some (st', calls)) :
    ∃ before, (before = [] ∨ st.shipd.Shown ∧ before = [st.shipd.ship]) ∧
      shipTable calls.flatten =
        puts Ship.mmsi maxships (before ++ reports st.shipd (decodes calls.flatten)) := by
  obtain ⟨before, hbefore, heq⟩ := (threaden_shipRun reads hrun).exists_before []
  exact ⟨before, hbefore, (shipTable_eq_puts _).trans heq⟩

/-- A `shipd` of zeros. -/
def zeroShip : ShipData := ⟨0, 0, .lit 0, .lit 0, .lit 0, .lit 0, .lit 0⟩

/-- The sentence of a frame, to a window that has just been opened. -/
theorem threaden_ships_octet : ∃ (reads : List (Option (List UInt8))) (st' : GuiState)
    (calls : List (List GuiCall)), reads ≠ [] ∧
      threaden reads (.initial (.replicate 256 0) (.replicate 500 0) zeroShip) = some (st', calls) ∧
      ∃ before, (before = [] ∨ zeroShip.Shown ∧ before = [zeroShip.ship]) ∧
        shipTable calls.flatten =
          puts Ship.mmsi maxships (before ++ reports zeroShip (decodes calls.flatten)) := by
  obtain ⟨f, -, hlen, haccepted, hknown⟩ := octetFrame_accepted
  obtain ⟨sentences, hsent, -, hcount, hread⟩ := haccepted.sentences hknown
  obtain ⟨gui', calls, call, hrun, -⟩ :=
    hread (.initial (.replicate 256 0) (.replicate 500 0) zeroShip)
  refine ⟨_, gui', calls, ?_, hrun, threaden_ships hrun⟩
  intro hnil
  rw [hsent, List.map_map, List.map_eq_nil_iff] at hnil
  rw [hnil, hlen] at hcount
  exact absurd hcount (by decide)

end Gnuais
