import Gnuais.CacheMap
import Gnuais.SplayFootprint

/-!
# Walking a tree and deleting it on the way

`cache_free` and `jsonout_export` walk a tree from its head and free every block
after they have read its entry: each turn of the loop first takes the next block
with `sp_fnext` and then deletes the current one. `drain` is that loop.

`drain_visits` says that in every run of the cache, for the current tree and for
all trees that were handed out, the loop ends, reads the entries of the tree's
interval in ascending order of the keys, and leaves the tree empty with a counter
of zero; and that no turn touches a block that an earlier turn gave back.
-/

namespace Gnuais

open LinkTree

/-! ## The loop

The source writes this loop twice, in `cache_free` and in `jsonout_export`, with other
work in its middle. What the two share is the order of the three calls: first the
successor, then the entry is freed, then the block. -/

/-- `cache_free_entry` -/
def cacheFreeEntry (e : Ptr) (s : CacheState) : CacheState :=
  { s with ents := fun p => if p = e then none else s.ents p }

/-- Between two turns: `x`, the tree, the cache, and the blocks visited so far with
the entries that were read there. -/
structure Drain where
  /-- the block that the next turn reads; `NULL` ends the loop -/
  x : Option Ptr
  /-- the tree, which loses a block every turn -/
  sp : Sptree
  /-- the memory and the entries -/
  cache : CacheState
  /-- what was read so far, in order -/
  visited : List (Ptr × CacheEnt)

/-- In front of the first turn: the head of the tree. -/
def drainStart (sp : Sptree) (s : CacheState) : Option Drain := do
  return { x := ← spFhead sp s.mem, sp := sp, cache := s, visited := [] }

/-- One turn, for the block `x`. Reading a block that is not in the tree any more would be
seen here as a link to nowhere, or not at all; `drainTurn_untouched` rules out both. -/
def drainTurn (x : Ptr) (d : Drain) : Option Drain := do
  let nextx ← spFnext x d.cache.mem
  let e ← d.cache.mem.data x
  let ent ← d.cache.ents e
  let s := cacheFreeEntry e d.cache
  let (sp, m) ← spDelete x d.sp s.mem
  return { x := nextx, sp := sp, cache := { s with mem := m }, visited := d.visited ++ [(x, ent)] }

/-- The turns. -/
def drainLoop (turns : ℕ) (d : Drain) : Option Drain :=
  match turns, d.x with
  | _, none => some d
  | 0, some _ => none
  | turns + 1, some x => do drainLoop turns (← drainTurn x d)

/-- The whole walk, with a turn for every address at most. -/
def drain (sp : Sptree) (s : CacheState) : Option Drain := do
  drainLoop s.mem.brk (← drainStart sp s)

/-! ## Turns

A turn keeps the invariant of the cache: the trees and the free list are those of `Forest`
with one block moved from the one to the other. -/

section

variable {d d' : Drain} {x : Ptr} {t : NodeTree Ptr} {rest : List (Sptree × NodeTree Ptr)}
  {free : List Ptr} {ys : List Ptr}

/-- Freeing the entry of one block leaves the others theirs. -/
theorem ent_cacheFreeEntry {s : CacheState} {trees : List (Sptree × NodeTree Ptr)} {n e : Ptr}
    (hinv : CacheInv s trees free) (hn : n ∈ treeNodes trees) (hdata : s.mem.data n = some e)
    {p : Ptr} (hp : p ∈ treeNodes trees) (hpn : p ≠ n) :
    ∃ e' ent, s.mem.data p = some e' ∧ e' < s.mem.brk ∧ s.ents e' = some ent ∧
      (cacheFreeEntry e s).ents e' = some ent := by
  obtain ⟨e', ent, hdata', hlt, hent⟩ := hinv.entry p hp
  refine ⟨e', ent, hdata', hlt, hent, (if_neg ?_).trans hent⟩
  rintro rfl
  exact hpn (hinv.own p hp n hn (hdata'.trans hdata.symm))

/-- A turn reads the entry of the first block of the tree and takes the block out. -/
theorem drainTurn_spec (hinv : CacheInv d.cache ((d.sp, t) :: rest) free)
    (horder : t.inorder = x :: ys) :
    ∃ ent d' t', drainTurn x d = some d' ∧ d.cache.ent x = some ent ∧ d'.x = ys.head? ∧
      d'.sp.eltscnt = d.sp.eltscnt - 1 ∧ d'.visited = d.visited ++ [(x, ent)] ∧
      CacheInv d'.cache ((d'.sp, t') :: rest) (x :: free) ∧ t'.inorder = ys ∧
      SameEnts d.cache d'.cache (ys ++ treeNodes rest) := by
  have ht := hinv.forest.isTree _ (List.mem_cons_self ..)
  have hlen := hinv.forest.length_le (List.mem_cons_self ..)
  have hsplit : t.inorder = [] ++ x :: ys := horder
  have hnodes : treeNodes ((d.sp, t) :: rest) = x :: (ys ++ treeNodes rest) := by
    rw [treeNodes_cons, horder, List.cons_append]
  have hx : x ∈ treeNodes ((d.sp, t) :: rest) := hnodes ▸ List.mem_cons_self ..
  obtain ⟨e, ent, hdata, -, hent⟩ := hinv.entry x hx
  obtain ⟨root, h, t', hdelete, hforest, horder'⟩ := spDelete_forest hinv.forest hsplit
  -- the blocks that stay are others than `x`, so no entry of theirs is freed
  have hrest : ∀ p ∈ ys ++ treeNodes rest, p ∈ treeNodes ((d.sp, t) :: rest) ∧ p ≠ x := by
    intro p hp
    have hdistinct := (List.nodup_append'.mp hinv.forest.distinct).1
    rw [hnodes] at hdistinct ⊢
    exact ⟨List.mem_cons_of_mem _ hp, fun heq => (List.nodup_cons.mp hdistinct).1 (heq ▸ hp)⟩
  have hkept : ∀ p ∈ ys ++ treeNodes rest, ∃ e' ent, d.cache.mem.data p = some e' ∧
      e' < d.cache.mem.brk ∧ d.cache.ents e' = some ent ∧
      (cacheFreeEntry e d.cache).ents e' = some ent := fun p hp =>
    ent_cacheFreeEntry hinv hx hdata (hrest p hp).1 (hrest p hp).2
  refine ⟨ent, ⟨ys.head?, ⟨root, d.sp.eltscnt - 1⟩,
      { cacheFreeEntry e d.cache with mem := { d.cache.mem with links := h, freeList := some x } },
      d.visited ++ [(x, ent)]⟩, t', ?_, ?_, rfl, rfl, rfl, ⟨hforest, ?_, ?_⟩, horder',
    fun p hp => ⟨rfl, ?_⟩⟩
  · rw [drainTurn, spFnext_spec ht hlen hsplit]
    simp only [Option.bind_eq_bind, Option.bind_some]
    rw [hdata, Option.bind_some, hent, Option.bind_some,
      show (cacheFreeEntry e d.cache).mem = d.cache.mem from rfl, hdelete]
    rfl
  · rw [CacheState.ent, hdata]
    exact hent
  · intro p hp
    rw [treeNodes_cons, horder'] at hp
    obtain ⟨e', ent', hdata', hlt, -, hent'⟩ := hkept p hp
    exact ⟨e', ent', hdata', hlt, hent'⟩
  · intro p hp p' hp' heq
    rw [treeNodes_cons, horder'] at hp hp'
    exact hinv.own p (hrest p hp).1 p' (hrest p' hp').1 heq
  · obtain ⟨e', ent', hdata', -, hent, hent'⟩ := hkept p hp
    rw [CacheState.ent, CacheState.ent, hdata']
    exact hent'.trans hent.symm

/-! ## The whole loop

The blocks that are left are always the tail of the scan at the start. This is why the
successor that was taken before the deletion is still the next block after it. -/

/-- A block with its entry. -/
def CacheState.visit (s : CacheState) (p : Ptr) : Ptr × CacheEnt := (p, (s.ent p).getD cacheEntInit)

/-- The loop visits the blocks that are left in order and leaves none. The induction
is on them. -/
theorem drainLoop_spec (ys : List Ptr) : ∀ {d : Drain} {t : NodeTree Ptr} {free : List Ptr}
    {turns : ℕ}, CacheInv d.cache ((d.sp, t) :: rest) free → t.inorder = ys → d.x = ys.head? →
    ys.length ≤ turns →
    ∃ d', drainLoop turns d = some d' ∧ d'.sp.root = none ∧
      d'.sp.eltscnt = d.sp.eltscnt - ys.length ∧
      d'.visited = d.visited ++ ys.map d.cache.visit ∧ SameEnts d.cache d'.cache (treeNodes rest) := by
  induction ys with
  | nil =>
    intro d t free turns hinv horder hx _
    have hleaf : t = .leaf := by
      cases t with
      | leaf => rfl
      | node l p r => simp at horder
    have hroot : d.sp.root = none :=
      (hleaf ▸ (hinv.forest.isTree _ (List.mem_cons_self ..)).shape : Shape _ d.sp.root .leaf)
    refine ⟨d, ?_, hroot, by simp, (List.append_nil _).symm, fun _ _ => ⟨rfl, rfl⟩⟩
    rw [drainLoop.eq_def, hx]
    cases turns <;> rfl
  | cons y ys ih =>
    intro d t free turns hinv horder hx hturns
    rw [List.length_cons] at hturns
    obtain ⟨turns, rfl⟩ : ∃ k, turns = k + 1 := ⟨turns - 1, by omega⟩
    obtain ⟨ent, d₁, t₁, hturn, hent, hx₁, hcount, hvisited, hinv₁, horder₁, hsame⟩ :=
      drainTurn_spec hinv horder
    obtain ⟨d', hloop, hroot, hcount', hvisited', hsame'⟩ :=
      ih hinv₁ horder₁ hx₁ (Nat.le_of_succ_le_succ hturns)
    -- the entries that are still to come are as they were before the turn
    have hvisit : ys.map d₁.cache.visit = ys.map d.cache.visit := by
      refine List.map_congr_left fun p hp => ?_
      rw [CacheState.visit, CacheState.visit, (hsame p (List.mem_append_left _ hp)).2]
    refine ⟨d', ?_, hroot, ?_, ?_, ?_⟩
    · rw [drainLoop.eq_def, hx]
      simp only [List.head?_cons, hturn, Option.bind_eq_bind, Option.bind_some]
      exact hloop
    · rw [hcount', hcount, List.length_cons]
      push_cast
      omega
    · rw [hvisited', hvisited, hvisit, List.append_assoc, List.map_cons, CacheState.visit, hent]
      rfl
    · exact SameEnts.trans (fun p hp => hsame p (List.mem_append_right _ hp)) hsame'

/-- The whole walk. -/
theorem drain_spec {s : CacheState} {q : Sptree} (hinv : CacheInv s ((q, t) :: rest) free) :
    ∃ d, drain q s = some d ∧ d.sp.root = none ∧ d.sp.eltscnt = q.eltscnt - t.inorder.length ∧
      d.visited = t.inorder.map s.visit ∧ SameEnts s d.cache (treeNodes rest) := by
  have ht := hinv.forest.isTree _ (List.mem_cons_self ..)
  have hlen := hinv.forest.length_le (List.mem_cons_self ..)
  obtain ⟨d, hloop, hroot, hcount, hvisited, hsame⟩ :=
    drainLoop_spec t.inorder (d := ⟨t.inorder.head?, q, s, []⟩) hinv rfl rfl hlen
  refine ⟨d, ?_, hroot, hcount, hvisited, hsame⟩
  rw [drain, drainStart, spFhead_spec ht hlen]
  exact hloop

/-! ## What a turn touches

A freed block may be handed out again at once, to another thread. So it is not enough that
the loop reads no freed block by luck: the turn has to do the same whatever is in these
blocks. -/

/-- The walk with the fields of the blocks in `ps` taken from `junk`. -/
def Drain.overwrite (d : Drain) (ps : List Ptr) (junk : Memory) : Drain :=
  { d with cache := { d.cache with mem := d.cache.mem.overwrite ps junk } }

/-- A turn commutes with overwriting blocks that are outside the tree. -/
theorem drainTurn_overwrite {ps xs : List Ptr} (junk : Memory)
    (hh : d.cache.mem.links.Closed xs) (hd : xs.Disjoint ps) (hx : x ∈ xs)
    (hturn : drainTurn x d = some d') :
    drainTurn x (d.overwrite ps junk) = some (d'.overwrite ps junk) := by
  rw [drainTurn] at hturn ⊢
  simp only [Option.bind_eq_bind] at hturn ⊢
  obtain ⟨nextx, hnext, hturn⟩ := Option.bind_eq_some_iff.mp hturn
  obtain ⟨e, hdata, hturn⟩ := Option.bind_eq_some_iff.mp hturn
  obtain ⟨ent, hent, hturn⟩ := Option.bind_eq_some_iff.mp hturn
  obtain ⟨⟨sp, m⟩, hdelete, heq⟩ := Option.bind_eq_some_iff.mp hturn
  obtain rfl := Option.some.inj heq
  have hdata' : (d.overwrite ps junk).cache.mem.data x = some e := (if_neg (hd hx)).trans hdata
  have hnext' : spFnext x (d.overwrite ps junk).cache.mem = some nextx :=
    (spFnext_overwrite junk hh hd hx).trans hnext
  have hent' : (d.overwrite ps junk).cache.ents e = some ent := hent
  have hdelete' : spDelete x (d.overwrite ps junk).sp
      (cacheFreeEntry e (d.overwrite ps junk).cache).mem = some (sp, m.overwrite ps junk) :=
    spDelete_overwrite junk hh hd hx hdelete
  simp only [hnext', hdata', hent', hdelete', Option.bind_some]
  rfl

/-- The states of the loop. -/
inductive DrainReach (sp : Sptree) (s : CacheState) : Drain → Prop where
  /-- the head was taken -/
  | start {d : Drain} (h : drainStart sp s = some d) : DrainReach sp s d
  /-- one block more was visited and deleted -/
  | turn {d d' : Drain} {x : Ptr} (hr : DrainReach sp s d) (hx : d.x = some x)
      (h : drainTurn x d = some d') : DrainReach sp s d'

/-- In every state of the loop the blocks visited are on the free list, and the
next one is the first of the tree. -/
theorem drainReach_inv {s : CacheState} {q : Sptree} (hinv : CacheInv s ((q, t) :: rest) free)
    (hr : DrainReach q s d) :
    ∃ t' free', CacheInv d.cache ((d.sp, t') :: rest) free' ∧ d.x = t'.inorder.head? ∧
      ∀ p ∈ d.visited.map Prod.fst, p ∈ free' := by
  induction hr with
  | start h =>
    rw [drainStart, spFhead_spec (hinv.forest.isTree _ (List.mem_cons_self ..))
      (hinv.forest.length_le (List.mem_cons_self ..))] at h
    obtain rfl := Option.some.inj h
    exact ⟨t, free, hinv, rfl, fun p hp => absurd hp List.not_mem_nil⟩
  | turn _ hx hturn ih =>
    obtain ⟨t₁, free₁, hinv₁, hx₁, hfreed⟩ := ih
    rw [hx₁] at hx
    obtain ⟨ys, hys⟩ := List.head?_eq_some_iff.mp hx
    obtain ⟨ent, d₂, t₂, hturn₂, -, hx₂, -, hvisited, hinv₂, horder₂, -⟩ :=
      drainTurn_spec hinv₁ hys
    obtain rfl := Option.some.inj (hturn.symm.trans hturn₂)
    refine ⟨t₂, _, hinv₂, horder₂ ▸ hx₂, fun p hp => ?_⟩
    rw [hvisited, List.map_append, List.mem_append] at hp
    rcases hp with hp | hp
    · exact List.mem_cons_of_mem _ (hfreed p hp)
    · rw [List.mem_singleton.mp hp]
      exact List.mem_cons_self ..

/-- The next block was not visited before, and its turn commutes with overwriting
all blocks that were. -/
theorem drainTurn_untouched {s : CacheState} {q : Sptree}
    (hinv : CacheInv s ((q, t) :: rest) free) (hr : DrainReach q s d) (hx : d.x = some x) :
    x ∉ d.visited.map Prod.fst ∧ ∃ d', drainTurn x d = some d' ∧ ∀ junk,
      drainTurn x (d.overwrite (d.visited.map Prod.fst) junk) =
        some (d'.overwrite (d.visited.map Prod.fst) junk) := by
  obtain ⟨t', free', hinv', hx', hfreed⟩ := drainReach_inv hinv hr
  rw [hx'] at hx
  obtain ⟨ys, hys⟩ := List.head?_eq_some_iff.mp hx
  obtain ⟨ht, -, -, hdisj, -⟩ := forest_cons.mp hinv'.forest
  have hd : t'.inorder.Disjoint (d.visited.map Prod.fst) := fun p hp hmem =>
    hdisj hp (List.mem_append_right _ (hfreed p hmem))
  have hmem : x ∈ t'.inorder := hys ▸ List.mem_cons_self ..
  obtain ⟨ent, d', t₁, hturn, -⟩ := drainTurn_spec hinv' hys
  exact ⟨hd hmem, d', hturn, fun junk => drainTurn_overwrite junk ht.closed hd hmem hturn⟩

end

/-! ## The counter

`eltscnt` is counted up by `sp_install` and down by `sp_delete`. It is right if it is the
number of blocks, and then it is zero at the end of the loop. -/

section Counter

variable {q q' : Sptree} {m m' : Memory} {s s' : CacheState} {t : NodeTree Ptr} {map : EntMap}
  {rest : List (Sptree × NodeTree Ptr)} {free : List Ptr} {key : SpKey} {n : Ptr}

/-- A splay does not count anything. -/
theorem splay_eltscnt (h : splay n q m = some (q', m')) : q'.eltscnt = q.eltscnt := by
  simp only [splay, Option.bind_eq_bind] at h
  obtain ⟨_, -, h⟩ := Option.bind_eq_some_iff.mp h
  rw [← (Prod.mk.inj (Option.some.inj h)).1]

/-- A lookup keeps the counter, and everything if it finds nothing. -/
theorem spLookup_eltscnt {found : Option Ptr} (h : spLookup key q m = some (found, q', m')) :
    q'.eltscnt = q.eltscnt ∧ (found = none → q' = q ∧ m' = m) := by
  simp only [spLookup, Option.bind_eq_bind] at h
  obtain ⟨found', -, h⟩ := Option.bind_eq_some_iff.mp h
  cases found' with
  | none =>
    obtain ⟨-, rfl, rfl⟩ : none = found ∧ q = q' ∧ m = m' := by simpa using h
    exact ⟨rfl, fun _ => ⟨rfl, rfl⟩⟩
  | some n =>
    obtain ⟨⟨q₁, m₁⟩, hsplay, h⟩ := Option.bind_eq_some_iff.mp h
    obtain ⟨rfl, rfl, rfl⟩ : some n = found ∧ q₁ = q' ∧ m₁ = m' := by simpa using h
    exact ⟨splay_eltscnt hsplay, fun hn => absurd hn (Option.some_ne_none n)⟩

/-- A new block counts. -/
theorem spInstall_eltscnt (hnone : spLookup key q m = some (none, q, m))
    (h : spInstall key q m = some (n, q', m')) : q'.eltscnt = q.eltscnt + 1 := by
  rw [spInstall, hnone] at h
  simp only [Option.bind_eq_bind, Option.bind_some] at h
  obtain ⟨⟨p, m₁⟩, -, h⟩ := Option.bind_eq_some_iff.mp h
  obtain ⟨⟨q₂, m₂⟩, henq, h⟩ := Option.bind_eq_some_iff.mp h
  obtain ⟨rfl, rfl, rfl⟩ : p = n ∧ q₂ = q' ∧ m₂ = m' := by simpa using h
  simp only [spEnq] at henq
  cases hroot : q.root with
  | none =>
    simp only [hroot] at henq
    rw [← (Prod.mk.inj (Option.some.inj henq)).1]
  | some next =>
    simp only [hroot, Option.bind_eq_bind] at henq
    obtain ⟨_, -, henq⟩ := Option.bind_eq_some_iff.mp henq
    rw [← (Prod.mk.inj (Option.some.inj henq)).1]

/-- A call for a new MMSI adds one to the counter, any other keeps it. -/
theorem cacheWrite_eltscnt (hinv : CacheInv s ((s.spt, t) :: rest) free) (hshows : Shows s t map)
    {mmsi : Int32} {store : CacheEnt → CacheEnt} (h : cacheWrite mmsi store s = some s') :
    s'.spt.eltscnt = s.spt.eltscnt + if map mmsi.toUInt32 = none then 1 else 0 := by
  obtain ⟨q₁, h₁, t₁, hlookup, -, -⟩ := spLookup_forest hinv.forest mmsi.toUInt32
  obtain ⟨hcount, hkept⟩ := spLookup_eltscnt hlookup
  simp only [cacheWrite, cacheGet, hlookup, Option.bind_eq_bind, Option.bind_some] at h
  obtain ⟨⟨e, s₁⟩, hget, h⟩ := Option.bind_eq_some_iff.mp h
  obtain ⟨ent, -, h⟩ := Option.bind_eq_some_iff.mp h
  obtain rfl := Option.some.inj h
  cases hfound : t.inorder.find? fun p => mmsi.toUInt32 = s.mem.key p with
  | some n =>
    have hkey : mmsi.toUInt32 = s.mem.key n := by simpa using List.find?_some hfound
    have hn := List.mem_of_find?_eq_some hfound
    obtain ⟨ent, hent⟩ := hinv.ent_isSome (mem_treeNodes (List.mem_cons_self ..) hn)
    rw [hfound] at hget
    obtain ⟨_, -, hget⟩ := Option.bind_eq_some_iff.mp hget
    rw [if_neg, ← (Prod.mk.inj (Option.some.inj hget)).2, hcount, Int.add_zero]
    rw [hkey, ← hshows.ent n hn, hent]
    exact Option.some_ne_none ent
  | none =>
    have hnone : map mmsi.toUInt32 = none := by
      by_contra hne
      obtain ⟨p, hp, hpk⟩ := hshows.key _ hne
      rw [List.find?_eq_none] at hfound
      exact hfound p hp (by simpa using hpk.symm)
    obtain ⟨rfl, hm⟩ := hkept hfound
    rw [hfound] at hget hlookup
    rw [hm] at hlookup hget
    obtain ⟨⟨n, q₂, m₂⟩, hinstall, hget⟩ := Option.bind_eq_some_iff.mp hget
    rw [if_pos hnone, ← (Prod.mk.inj (Option.some.inj hget)).2]
    exact spInstall_eltscnt hlookup hinstall

/-- The counter of a tree is the number of keys of its map. -/
def Counted (q : Sptree) (map : EntMap) : Prop :=
  ∃ keys : List SpKey, keys.Nodup ∧ (∀ k, k ∈ keys ↔ map k ≠ none) ∧ q.eltscnt = keys.length

/-- So it is the number of nodes. -/
theorem Counted.length {trees : List (Sptree × NodeTree Ptr)} {x : Sptree × NodeTree Ptr}
    (hc : Counted x.1 map) (hinv : CacheInv s trees free) (hx : x ∈ trees)
    (hshows : Shows s x.2 map) : x.1.eltscnt = x.2.inorder.length := by
  obtain ⟨keys, hnodup, hkeys, hcount⟩ := hc
  have hsorted : (x.2.inorder.map s.mem.key).Pairwise (· < ·) :=
    List.pairwise_map.mpr (hinv.forest.sorted x hx)
  have hperm : keys.Perm (x.2.inorder.map s.mem.key) := by
    refine (List.perm_ext_iff_of_nodup hnodup (hsorted.imp UInt32.ne_of_lt)).mpr fun k => ?_
    rw [hkeys, List.mem_map]
    constructor
    · intro hk
      obtain ⟨p, hp, hpk⟩ := hshows.key k hk
      exact ⟨p, hp, hpk⟩
    · rintro ⟨p, hp, rfl⟩
      obtain ⟨ent, hent⟩ := hinv.ent_isSome (mem_treeNodes hx hp)
      rw [← hshows.ent p hp, hent]
      exact Option.some_ne_none ent
  rw [hcount, hperm.length_eq, List.length_map]

/-- The counter after a call. -/
theorem Counted.update {call : CacheCall} (hc : Counted q map)
    (hcount : q'.eltscnt = q.eltscnt + if map call.key = none then 1 else 0) :
    Counted q' (Records.update CacheCall.key CacheCall.write cacheEntInit map call) := by
  obtain ⟨keys, hnodup, hkeys, hlen⟩ := hc
  by_cases hnone : map call.key = none
  · have hnew : call.key ∉ keys := fun hmem => (hkeys _).mp hmem hnone
    refine ⟨call.key :: keys, List.nodup_cons.mpr ⟨hnew, hnodup⟩, fun k => ?_, ?_⟩
    · rw [Records.update, List.mem_cons, hkeys]
      by_cases hk : k = call.key
      · simp [hk]
      · rw [Function.update_of_ne hk]
        simp [hk]
    · rw [hcount, if_pos hnone, hlen, List.length_cons]
      rfl
  · refine ⟨keys, hnodup, fun k => ?_, ?_⟩
    · rw [Records.update, hkeys]
      by_cases hk : k = call.key
      · simp [hk, hnone]
      · rw [Function.update_of_ne hk]
    · rw [hcount, if_neg hnone, hlen, Int.add_zero]

/-- One operation keeps the counters right. -/
theorem cacheStep_counted {r r' : CacheRun} {c : CacheMap} {op : CacheOp} (hr : Refines r c)
    (hstep : cacheStep r op = some r')
    (hc : List.Forall₂ Counted (r.cache.spt :: r.returned) (c.current :: c.returned)) :
    List.Forall₂ Counted (r'.cache.spt :: r'.returned)
      ((c.step op).current :: (c.step op).returned) := by
  obtain ⟨t, rest, free, hinv, hcurrent, -, -⟩ := hr
  rw [List.forall₂_cons] at hc
  cases op with
  | update call =>
    obtain ⟨s', hupdate, heq⟩ := Option.bind_eq_some_iff.mp hstep
    obtain rfl := Option.some.inj heq
    rw [cacheUpdate_eq] at hupdate
    have hcount := cacheWrite_eltscnt hinv hcurrent hupdate
    exact .cons (hc.1.update hcount) hc.2
  | rotate =>
    obtain rfl := Option.some.inj hstep
    have hempty : Counted spInit fun _ => none := ⟨[], List.nodup_nil, by simp, rfl⟩
    exact .cons hempty (List.rel_append hc.2 (.cons hc.1 .nil))

/-- All counters are right throughout a run. -/
theorem cacheRun_counted (mem : Memory) (ops : List CacheOp) :
    ∃ r, cacheRun mem ops = some r ∧ Refines r (CacheMap.run ops) ∧
      List.Forall₂ Counted (r.cache.spt :: r.returned)
        ((CacheMap.run ops).current :: (CacheMap.run ops).returned) := by
  induction ops using List.reverseRecOn with
  | nil =>
    refine ⟨_, rfl, cacheInit_refines mem, .cons ⟨[], List.nodup_nil, ?_, rfl⟩ .nil⟩
    simp [CacheMap.run]
  | append_singleton ops op ih =>
    obtain ⟨r, hrun, hr, hc⟩ := ih
    obtain ⟨r', hstep, hr'⟩ := cacheStep_refines hr op
    refine ⟨r', ?_, ?_, ?_⟩
    · rw [cacheRun_concat hrun, hstep]
    · rw [CacheMap.run_concat]
      exact hr'
    · rw [CacheMap.run_concat]
      exact cacheStep_counted hr hstep hc

end Counter

/-! ## All trees of a run

The trees that were handed out and the current one are treated alike: each stands for the
map of the calls of an interval, and this is all that the loop needs. -/

/-- No turn of the loop touches a block that an earlier one gave back: it visits another
one, and does the same whatever the fields of these blocks are, and leaves them as they
are. "Whatever the fields of these blocks are" stands for anything that another thread may
do with memory that was given back. -/
def Untouched (q : Sptree) (s : CacheState) : Prop :=
  ∀ d x, DrainReach q s d → d.x = some x → x ∉ d.visited.map Prod.fst ∧
    ∃ d', drainTurn x d = some d' ∧ ∀ junk,
      drainTurn x (d.overwrite (d.visited.map Prod.fst) junk) =
        some (d'.overwrite (d.visited.map Prod.fst) junk)

/-- A tree that stands for the map of some calls is drained. -/
theorem drain_snapshot {s : CacheState} {trees : List (Sptree × NodeTree Ptr)} {free : List Ptr}
    {x : Sptree × NodeTree Ptr} {calls : List CacheCall} (hinv : CacheInv s trees free)
    (hx : x ∈ trees) (hshows : Shows s x.2 (entMapOf calls)) (hc : Counted x.1 (entMapOf calls)) :
    (∃ d, drain x.1 s = some d ∧
      Snapshot calls (d.visited.map fun v => (s.mem.key v.1, v.2)) ∧
      d.sp.root = none ∧ d.sp.eltscnt = 0) ∧ Untouched x.1 s := by
  have hcount := hc.length hinv hx hshows
  obtain ⟨entries, hscan, hsorted, hmem⟩ := cacheScan_spec hinv hx hshows
  rw [cacheScan_eq hinv hx] at hscan
  obtain ⟨trees₁, trees₂, rfl⟩ := List.append_of_mem hx
  have hinv' := hinv.perm List.perm_middle
  obtain ⟨d, hdrain, hroot, hcount', hvisited, -⟩ := drain_spec hinv'
  refine ⟨⟨d, hdrain, ?_, hroot, ?_⟩, fun d' y hr hy => drainTurn_untouched hinv' hr hy⟩
  · have hentries : d.visited.map (fun v => (s.mem.key v.1, v.2)) = entries := by
      rw [hvisited, List.map_map, ← Option.some.inj hscan]
      rfl
    rw [hentries]
    exact snapshot_of_map hsorted hmem
  · rw [hcount', hcount, Int.sub_self]

/-- So are all of them. -/
theorem drain_snapshots {s : CacheState} {trees given : List (Sptree × NodeTree Ptr)}
    {free : List Ptr} {lists : List (List CacheCall)} (hinv : CacheInv s trees free)
    (hsub : given ⊆ trees)
    (hshows : List.Forall₂ (fun x calls => Shows s x.2 (entMapOf calls)) given lists)
    (hc : List.Forall₂ (fun x calls => Counted x.1 (entMapOf calls)) given lists) :
    List.Forall₂ (fun calls q => (∃ d, drain q s = some d ∧
        Snapshot calls (d.visited.map fun v => (s.mem.key v.1, v.2)) ∧
        d.sp.root = none ∧ d.sp.eltscnt = 0) ∧ Untouched q s)
      lists (given.map Prod.fst) := by
  induction hshows with
  | nil => exact .nil
  | cons hx _ ih =>
    obtain ⟨hcx, hc⟩ := List.forall₂_cons.mp hc
    exact .cons (drain_snapshot hinv (hsub (List.mem_cons_self ..)) hx hcx)
      (ih (fun y hy => hsub (List.mem_cons_of_mem _ hy)) hc)

/-- In every run of the cache, for the current tree and every tree that was handed out:
the loop of `cache_free` and `jsonout_export` ends, reads the entries of the tree's
interval, each once and in ascending order of the keys, and leaves no root and a counter
of zero, and no turn touches a block given back before. It is stated with the fields of
the freed blocks replaced by anything, so a block may be handed out again while the loop
is still running. -/
theorem drain_visits (mem : Memory) (ops : List CacheOp) :
    ∃ r, cacheRun mem ops = some r ∧
      List.Forall₂ (fun calls q => (∃ d, drain q r.cache = some d ∧
          Snapshot calls (d.visited.map fun v => (r.cache.mem.key v.1, v.2)) ∧
          d.sp.root = none ∧ d.sp.eltscnt = 0) ∧ Untouched q r.cache)
        ((intervals ops).current :: (intervals ops).closed) (r.cache.spt :: r.returned) := by
  obtain ⟨r, hrun, ⟨t, rest, free, hinv, hcurrent, hhandles, hreturned⟩, hcounted⟩ :=
    cacheRun_counted mem ops
  rw [run_intervals, ← hhandles] at hcounted
  rw [run_intervals] at hcurrent hreturned
  refine ⟨r, hrun, ?_⟩
  rw [← hhandles]
  exact drain_snapshots hinv (List.Subset.refl _)
    (.cons hcurrent (List.forall₂_map_right_iff.mp hreturned))
    (List.forall₂_map_left_iff.mp (List.forall₂_map_right_iff.mp hcounted))

end Gnuais
