import Gnuais.Cache
import Gnuais.SplayForest
import Gnuais.Lib.Buffer
import Mathlib.Logic.Function.Basic
import Mathlib.Tactic.Tauto

/-!
# The entries of the cache

`CacheInv` says that every block of every tree, the current one and those that
were handed out, points at an entry of its own. `Shows` says which map from keys
to entries a tree stands for. `cacheGet_spec` and `cacheWrite_spec` give the map
after a call; the trees that were handed out stand for what they stood for.
-/

namespace Gnuais

open LinkTree

/-- What a tree stands for. -/
abbrev EntMap : Type := SpKey → Option CacheEnt

/-- The memory holds these trees, and every block has an entry of its own. The free list
belongs to it, as a block that is taken from it must not be in a tree already. -/
structure CacheInv (s : CacheState) (trees : List (Sptree × NodeTree Ptr)) (free : List Ptr) :
    Prop where
  /-- the trees and the free list, apart from each other -/
  forest : Forest s.mem trees free
  /-- every block points at an entry, at an address that was handed out -/
  entry : ∀ p ∈ treeNodes trees, ∃ e ent, s.mem.data p = some e ∧ e < s.mem.brk ∧
    s.ents e = some ent
  /-- and no two blocks share one, so a store to one entry changes no other -/
  own : ∀ p ∈ treeNodes trees, ∀ p' ∈ treeNodes trees, s.mem.data p = s.mem.data p' → p = p'

/-- A tree stands for a map: its blocks have the entries of their keys, and every key of
the map has a block. It says nothing about the shape of the tree. A splay changes the
shape all the time and never what the tree shows. -/
structure Shows (s : CacheState) (t : NodeTree Ptr) (map : EntMap) : Prop where
  /-- the entry of a block is the one the map has under its key -/
  ent : ∀ p ∈ t.inorder, s.ent p = map (s.mem.key p)
  /-- no key of the map is missing from the tree -/
  key : ∀ k, map k ≠ none → ∃ p ∈ t.inorder, s.mem.key p = k

/-- The keys and entries of some blocks are the same in two states. -/
def SameEnts (s s' : CacheState) (ps : List Ptr) : Prop :=
  ∀ p ∈ ps, s'.mem.key p = s.mem.key p ∧ s'.ent p = s.ent p

/-- Two steps that both leave the entries of some blocks alone. -/
theorem SameEnts.trans {s s' s'' : CacheState} {ps : List Ptr} (h : SameEnts s s' ps)
    (h' : SameEnts s' s'' ps) : SameEnts s s'' ps := fun p hp =>
  ⟨(h' p hp).1.trans (h p hp).1, (h' p hp).2.trans (h p hp).2⟩

section

variable {s s' : CacheState} {t t' : NodeTree Ptr} {map : EntMap}
  {rest : List (Sptree × NodeTree Ptr)} {free : List Ptr}

/-- A tree stands for the same map as long as nothing is stored to its blocks. -/
theorem Shows.same (hs : Shows s t map) (horder : t'.inorder = t.inorder)
    (hsame : SameEnts s s' t.inorder) : Shows s' t' map where
  ent p hp := by
    rw [horder] at hp
    rw [(hsame p hp).1, (hsame p hp).2]
    exact hs.ent p hp
  key k hk := by
    obtain ⟨p, hp, hpk⟩ := hs.key k hk
    exact ⟨p, horder ▸ hp, (hsame p hp).1.trans hpk⟩

/-- A fresh tree stands for the empty map. -/
theorem shows_spInit : Shows s .leaf fun _ => none where
  ent _ hp := absurd hp List.not_mem_nil
  key _ hk := absurd rfl hk

/-- Two blocks of a sorted tree have different keys. -/
theorem KeySorted.inj {m : Memory} {xs : List Ptr} (hs : KeySorted m xs) :
    ∀ p ∈ xs, ∀ p' ∈ xs, m.key p = m.key p' → p = p' :=
  List.Pairwise.forall_of_forall_of_flip (fun _ _ _ => rfl)
    (hs.imp fun hlt heq => absurd heq (UInt32.ne_of_lt hlt))
    (hs.imp fun hlt heq => absurd heq.symm (UInt32.ne_of_lt hlt))

/-- The blocks of the first tree, and then those of the others. -/
theorem treeNodes_cons (x : Sptree × NodeTree Ptr) (trees : List (Sptree × NodeTree Ptr)) :
    treeNodes (x :: trees) = x.2.inorder ++ treeNodes trees :=
  List.flatMap_cons

/-- A lookup moves nodes of one tree about. -/
theorem CacheInv.relink {q q' : Sptree} {h : Links Ptr}
    (hinv : CacheInv s ((q, t) :: rest) free) (horder : t'.inorder = t.inorder)
    (hforest : Forest { s.mem with links := h } ((q', t') :: rest) free) :
    CacheInv { s with mem := { s.mem with links := h }, spt := q' } ((q', t') :: rest) free := by
  have hnodes : treeNodes ((q', t') :: rest) = treeNodes ((q, t) :: rest) := by
    rw [treeNodes_cons, treeNodes_cons, horder]
  refine ⟨hforest, ?_, ?_⟩
  · rw [hnodes]
    exact hinv.entry
  · rw [hnodes]
    exact hinv.own

/-! ## `cache_get`

The function has two ways through. A key that is there costs a splay, which moves nodes
but leaves keys and entries alone; a new one takes a block off the free list and an
address for its entry. In both the trees that were handed out keep what they stand for. -/

/-- The state after a block `n` joined the trees and got the first entry. -/
def CacheState.addEnt (s : CacheState) (n : Ptr) (q : Sptree) (m : Memory) : CacheState where
  mem := { m with
    brk := m.brk + 1
    data := fun p => if p = n then some m.brk else m.data p }
  ents := fun p => if p = m.brk then some cacheEntInit else s.ents p
  spt := q

/-- The new entry is at an address that no block points at yet. -/
theorem CacheInv.addEnt {trees trees' : List (Sptree × NodeTree Ptr)} {free' : List Ptr} {n : Ptr}
    {m : Memory} (hinv : CacheInv s trees free) (q : Sptree) (hforest : Forest m trees' free')
    (hn : n ∉ treeNodes trees) (hnodes : ∀ p, p ∈ treeNodes trees' ↔ p = n ∨ p ∈ treeNodes trees)
    (hbrk : s.mem.brk ≤ m.brk) (hkey : ∀ p, p ≠ n → m.key p = s.mem.key p)
    (hdata : m.data = s.mem.data) :
    CacheInv (s.addEnt n q m) trees' free' ∧ SameEnts s (s.addEnt n q m) (treeNodes trees) ∧
      (s.addEnt n q m).ent n = some cacheEntInit := by
  have hne : ∀ p ∈ treeNodes trees, p ≠ n := fun p hp heq => hn (heq ▸ hp)
  have hdatan : (s.addEnt n q m).mem.data n = some m.brk := if_pos rfl
  have hdatap : ∀ p ∈ treeNodes trees, (s.addEnt n q m).mem.data p = s.mem.data p := fun p hp =>
    (if_neg (hne p hp)).trans (congrFun hdata p)
  have hentsn : (s.addEnt n q m).ents m.brk = some cacheEntInit := if_pos rfl
  -- entries that are there lie below the new one
  have hentsp : ∀ e, e < s.mem.brk → (s.addEnt n q m).ents e = s.ents e := fun e he =>
    if_neg (Nat.ne_of_lt (Nat.lt_of_lt_of_le he hbrk))
  refine ⟨⟨?_, ?_, ?_⟩, ?_, ?_⟩
  · exact hforest.same (fun _ _ => ⟨fun _ => rfl, rfl⟩) (fun _ _ => rfl) rfl (Nat.le_succ _)
  · intro p hp
    rcases (hnodes p).mp hp with rfl | hp
    · exact ⟨m.brk, cacheEntInit, hdatan, Nat.lt_succ_self _, hentsn⟩
    · obtain ⟨e, ent, he, hlt, hent⟩ := hinv.entry p hp
      exact ⟨e, ent, (hdatap p hp).trans he, Nat.lt_succ_of_lt (Nat.lt_of_lt_of_le hlt hbrk),
        (hentsp e hlt).trans hent⟩
  · have hfresh : ∀ p ∈ treeNodes trees,
        (s.addEnt n q m).mem.data n ≠ (s.addEnt n q m).mem.data p := by
      intro p hp heq
      obtain ⟨e, ent, he, hlt, -⟩ := hinv.entry p hp
      rw [hdatan, hdatap p hp, he, Option.some.injEq] at heq
      exact absurd hlt (Nat.not_lt.mpr (heq ▸ hbrk))
    intro p hp p' hp' heq
    rcases (hnodes p).mp hp with rfl | hp <;> rcases (hnodes p').mp hp' with rfl | hp'
    · rfl
    · exact absurd heq (hfresh p' hp')
    · exact absurd heq.symm (hfresh p hp)
    · rw [hdatap p hp, hdatap p' hp'] at heq
      exact hinv.own p hp p' hp' heq
  · intro p hp
    obtain ⟨e, ent, he, hlt, -⟩ := hinv.entry p hp
    refine ⟨hkey p (hne p hp), ?_⟩
    rw [CacheState.ent, CacheState.ent, hdatap p hp, he]
    exact hentsp e hlt
  · rw [CacheState.ent, hdatan]
    exact hentsn

/-- The key is there: `cache_get` gives the entry of its block. -/
theorem cacheGet_found {q₁ : Sptree} {h₁ : Links Ptr} {n : Ptr} {mmsi : Int32}
    (hinv : CacheInv s ((s.spt, t) :: rest) free) (hshows : Shows s t map)
    (hlookup : spLookup mmsi.toUInt32 s.spt s.mem =
      some (some n, q₁, { s.mem with links := h₁ }))
    (hfound : t.inorder.find? (fun p => mmsi.toUInt32 = s.mem.key p) = some n) :
    ∃ e, cacheGet mmsi s = some (e, { s with mem := { s.mem with links := h₁ }, spt := q₁ }) ∧
      n ∈ t.inorder ∧ s.mem.key n = mmsi.toUInt32 ∧ s.mem.data n = some e ∧
      Function.update map mmsi.toUInt32
        (some ((map mmsi.toUInt32).getD cacheEntInit)) = map := by
  have hn : n ∈ t.inorder := List.mem_of_find?_eq_some hfound
  have hkey : mmsi.toUInt32 = s.mem.key n := by simpa using List.find?_some hfound
  obtain ⟨e, ent, hdata, -, hent⟩ := hinv.entry n (mem_treeNodes (List.mem_cons_self ..) hn)
  have hmap : map mmsi.toUInt32 = some ent := by
    rw [hkey, ← hshows.ent n hn, CacheState.ent, hdata]
    exact hent
  refine ⟨e, ?_, hn, hkey.symm, hdata, ?_⟩
  · rw [cacheGet, hlookup]
    simp only [Option.bind_eq_bind, Option.bind_some]
    rw [hdata]
    rfl
  · rw [hmap, Option.getD_some, ← hmap, Function.update_eq_self]

/-- A tree that got one block more, with the first entry, stands for the map with
this entry under the key of the block. -/
theorem Shows.insert {n : Ptr} {k : SpKey} (hshows : Shows s t map)
    (hmem : ∀ p, p ∈ t'.inorder ↔ p = n ∨ p ∈ t.inorder)
    (hnew : ∀ p ∈ t.inorder, s.mem.key p ≠ k) (hsame : SameEnts s s' t.inorder)
    (hkey : s'.mem.key n = k) (hent : s'.ent n = some cacheEntInit) :
    Shows s' t' (Function.update map k (some ((map k).getD cacheEntInit))) where
  ent p hp := by
    have hnone : map k = none := by
      by_contra hne
      obtain ⟨p, hp, hpk⟩ := hshows.key k hne
      exact hnew p hp hpk
    rw [hnone, Option.getD_none]
    rcases (hmem p).mp hp with rfl | hp
    · rw [hent, hkey, Function.update_self]
    · rw [(hsame p hp).2, (hsame p hp).1, Function.update_of_ne (hnew p hp)]
      exact hshows.ent p hp
  key k' hk' := by
    by_cases hkk : k' = k
    · exact ⟨n, (hmem n).mpr (.inl rfl), hkey.trans hkk.symm⟩
    · rw [Function.update_of_ne hkk] at hk'
      obtain ⟨p, hp, hpk⟩ := hshows.key k' hk'
      exact ⟨p, (hmem p).mpr (.inr hp), (hsame p hp).1.trans hpk⟩

/-- The key is not there: `cache_get` installs a block for it, with a first entry. -/
theorem cacheGet_new {q₁ : Sptree} {h₁ : Links Ptr} {t₁ : NodeTree Ptr} {mmsi : Int32}
    (hinv : CacheInv s ((s.spt, t) :: rest) free) (hshows : Shows s t map)
    (hlookup : spLookup mmsi.toUInt32 s.spt s.mem = some (none, q₁, { s.mem with links := h₁ }))
    (hforest₁ : Forest { s.mem with links := h₁ } ((q₁, t₁) :: rest) free)
    (horder₁ : t₁.inorder = t.inorder) (hnew : ∀ p ∈ t.inorder, s.mem.key p ≠ mmsi.toUInt32) :
    ∃ e s' t' free', cacheGet mmsi s = some (e, s') ∧
      CacheInv s' ((s'.spt, t') :: rest) free' ∧
      Shows s' t' (Function.update map mmsi.toUInt32
        (some ((map mmsi.toUInt32).getD cacheEntInit))) ∧
      (∃ n ∈ t'.inorder, s'.mem.key n = mmsi.toUInt32 ∧ s'.mem.data n = some e) ∧
      SameEnts s s' (treeNodes rest) := by
  obtain ⟨n, q₂, m₂, t₂, free₂, xs, ys, hinstall, hforest₂, hn, horder, horder₂, hbrk, hkey,
    hdata⟩ := spInstall_forest hforest₁ (horder₁.symm ▸ hnew)
  rw [treeNodes_cons, horder₁, ← treeNodes_cons (s.spt, t)] at hn
  rw [horder₁] at horder
  -- the new block is the only one that is added
  have hmem : ∀ p, p ∈ t₂.inorder ↔ p = n ∨ p ∈ t.inorder := by
    intro p
    simp only [horder₂, horder, List.mem_append, List.mem_cons]
    tauto
  have hnodes : ∀ p, p ∈ treeNodes ((q₂, t₂) :: rest) ↔
      p = n ∨ p ∈ treeNodes ((s.spt, t) :: rest) := by
    intro p
    simp only [treeNodes_cons, List.mem_append, hmem]
    tauto
  have hkeyn : m₂.key n = mmsi.toUInt32 := (congrFun hkey n).trans (if_pos rfl)
  obtain ⟨hinv₂, hsame, hentn⟩ := hinv.addEnt q₂ hforest₂ hn hnodes hbrk
    (fun p hp => (congrFun hkey p).trans (if_neg hp)) hdata
  refine ⟨m₂.brk, _, t₂, free₂, ?_, hinv₂, ?_, ⟨n, (hmem n).mpr (.inl rfl), hkeyn, if_pos rfl⟩,
    fun p hp => hsame p ?_⟩
  · rw [cacheGet, hlookup]
    simp only [Option.bind_eq_bind, Option.bind_some]
    rw [hinstall]
    rfl
  · exact hshows.insert hmem hnew
      (fun p hp => hsame p (mem_treeNodes (List.mem_cons_self ..) hp)) hkeyn hentn
  · rw [treeNodes_cons]
    exact List.mem_append_right _ hp

/-- `cache_get` gives the entry under the key, which is a first one if there was none. The
two cases are `cacheGet_found` and `cacheGet_new`. -/
theorem cacheGet_spec (hinv : CacheInv s ((s.spt, t) :: rest) free) (hshows : Shows s t map)
    (mmsi : Int32) :
    ∃ e s' t' free', cacheGet mmsi s = some (e, s') ∧
      CacheInv s' ((s'.spt, t') :: rest) free' ∧
      Shows s' t' (Function.update map mmsi.toUInt32
        (some ((map mmsi.toUInt32).getD cacheEntInit))) ∧
      (∃ n ∈ t'.inorder, s'.mem.key n = mmsi.toUInt32 ∧ s'.mem.data n = some e) ∧
      SameEnts s s' (treeNodes rest) := by
  obtain ⟨q₁, h₁, t₁, hlookup, hforest₁, horder₁⟩ := spLookup_forest hinv.forest mmsi.toUInt32
  cases hfound : t.inorder.find? fun p => mmsi.toUInt32 = s.mem.key p with
  | some n =>
    rw [hfound] at hlookup
    obtain ⟨e, hget, hn, hkey, hdata, hupdate⟩ := cacheGet_found hinv hshows hlookup hfound
    have hshows₁ : Shows { s with mem := { s.mem with links := h₁ }, spt := q₁ } t₁ map :=
      hshows.same horder₁ fun _ _ => ⟨rfl, rfl⟩
    exact ⟨e, _, t₁, free, hget, hinv.relink horder₁ hforest₁, hupdate.symm ▸ hshows₁,
      ⟨n, horder₁ ▸ hn, hkey, hdata⟩, fun _ _ => ⟨rfl, rfl⟩⟩
  | none =>
    rw [hfound] at hlookup
    refine cacheGet_new hinv hshows hlookup hforest₁ horder₁ fun p hp heq => ?_
    rw [List.find?_eq_none] at hfound
    exact hfound p hp (by simpa using heq.symm)

/-! ## Stores

A call writes to one entry only. Since every block has an entry of its own, the map of the
tree changes at one key and the other trees' maps not at all. -/

/-- The state after a store to the entry at `e`. -/
def CacheState.setEnt (s : CacheState) (e : Ptr) (ent : CacheEnt) : CacheState :=
  { s with ents := fun p => if p = e then some ent else s.ents p }

/-- A store to the entry of one block changes the entry of no other. -/
theorem CacheInv.setEnt {trees : List (Sptree × NodeTree Ptr)} {n e : Ptr}
    (hinv : CacheInv s trees free) (hn : n ∈ treeNodes trees) (hdata : s.mem.data n = some e)
    (ent : CacheEnt) :
    CacheInv (s.setEnt e ent) trees free ∧ (s.setEnt e ent).ent n = some ent ∧
      ∀ p ∈ treeNodes trees, p ≠ n → (s.setEnt e ent).ent p = s.ent p := by
  refine ⟨⟨hinv.forest, ?_, hinv.own⟩, ?_, ?_⟩
  · intro p hp
    obtain ⟨e', ent', hdata', hlt, hent'⟩ := hinv.entry p hp
    by_cases heq : e' = e
    · exact ⟨e', ent, hdata', hlt, if_pos heq⟩
    · exact ⟨e', ent', hdata', hlt, (if_neg heq).trans hent'⟩
  · rw [CacheState.ent, show (s.setEnt e ent).mem.data n = some e from hdata]
    exact if_pos rfl
  · intro p hp hpn
    obtain ⟨e', -, hdata', -, -⟩ := hinv.entry p hp
    have hne : e' ≠ e := by
      rintro rfl
      exact hpn (hinv.own p hp n hn (hdata'.trans hdata.symm))
    rw [CacheState.ent, CacheState.ent, show (s.setEnt e ent).mem.data p = some e' from hdata',
      hdata']
    exact if_neg hne

/-- A call changes the entry of its MMSI, and no entry of the trees handed out. For the
trees handed out there is nothing to do but to see that their blocks have other entries. -/
theorem cacheWrite_spec (hinv : CacheInv s ((s.spt, t) :: rest) free) (hshows : Shows s t map)
    (mmsi : Int32) (store : CacheEnt → CacheEnt) :
    ∃ s' t' free', cacheWrite mmsi store s = some s' ∧
      CacheInv s' ((s'.spt, t') :: rest) free' ∧
      Shows s' t' (Function.update map mmsi.toUInt32
        (some (store ((map mmsi.toUInt32).getD cacheEntInit)))) ∧
      SameEnts s s' (treeNodes rest) := by
  obtain ⟨e, s₁, t₁, free₁, hget, hinv₁, hshows₁, ⟨n, hn, hkey, hdata⟩, hsame⟩ :=
    cacheGet_spec hinv hshows mmsi
  have hnodes : n ∈ treeNodes ((s₁.spt, t₁) :: rest) := mem_treeNodes (List.mem_cons_self ..) hn
  have hent : s₁.ents e = some ((map mmsi.toUInt32).getD cacheEntInit) := by
    have hentn := hshows₁.ent n hn
    rw [hkey, Function.update_self, CacheState.ent, hdata] at hentn
    exact hentn
  obtain ⟨hinv₂, hentn, hentp⟩ :=
    hinv₁.setEnt hnodes hdata (store ((map mmsi.toUInt32).getD cacheEntInit))
  obtain ⟨-, hsorted, -, hdisjoint, -⟩ := forest_cons.mp hinv₁.forest
  refine ⟨_, t₁, free₁, ?_, hinv₂, ⟨?_, ?_⟩, ?_⟩
  · rw [cacheWrite, hget]
    simp only [Option.bind_eq_bind, Option.bind_some]
    rw [hent]
    rfl
  · intro p hp
    change _ = Function.update map _ _ (s₁.mem.key p)
    by_cases hpn : p = n
    · subst hpn
      rw [hentn, hkey, Function.update_self]
    · -- the key stands in the tree once, so another block has another key
      have hpk : s₁.mem.key p ≠ mmsi.toUInt32 := fun heq =>
        hpn (hsorted.inj p hp n hn (heq.trans hkey.symm))
      rw [hentp p (mem_treeNodes (List.mem_cons_self ..) hp) hpn, hshows₁.ent p hp,
        Function.update_of_ne hpk, Function.update_of_ne hpk]
  · intro k hk
    by_cases hkk : k = mmsi.toUInt32
    · exact ⟨n, hn, hkey.trans hkk.symm⟩
    · rw [Function.update_of_ne hkk] at hk
      exact hshows₁.key k (by rwa [Function.update_of_ne hkk])
  · refine hsame.trans fun p hp => ⟨rfl, hentp p ?_ ?_⟩
    · rw [treeNodes_cons]
      exact List.mem_append_right _ hp
    · rintro rfl
      exact hdisjoint hn (List.mem_append_left _ hp)

/-! ## Scans

A scan is in the order of the keys because the tree is sorted. What it reads is given by
the map alone, so two trees that stand for the same map are read alike, however they were
built. -/

/-- The key and the entry of a block that has an entry. -/
def CacheState.read (s : CacheState) (p : Ptr) : SpKey × CacheEnt :=
  (s.mem.key p, (s.ent p).getD cacheEntInit)

/-- In the invariant no read through a block fails. -/
theorem CacheInv.ent_isSome {trees : List (Sptree × NodeTree Ptr)} (hinv : CacheInv s trees free)
    {p : Ptr} (hp : p ∈ treeNodes trees) : ∃ ent, s.ent p = some ent := by
  obtain ⟨e, ent, hdata, -, he⟩ := hinv.entry p hp
  exact ⟨ent, by rw [CacheState.ent, hdata]; exact he⟩

/-- A scan reads the blocks of a tree in order. -/
theorem cacheScan_eq {trees : List (Sptree × NodeTree Ptr)} {x : Sptree × NodeTree Ptr}
    (hinv : CacheInv s trees free) (hx : x ∈ trees) :
    cacheScan x.1 s = some (x.2.inorder.map s.read) := by
  rw [cacheScan, spScan_spec (hinv.forest.isTree x hx) (hinv.forest.length_le hx)]
  refine Buffer.mapM_some fun p hp => ?_
  obtain ⟨ent, he⟩ := hinv.ent_isSome (mem_treeNodes hx hp)
  simp only [CacheState.read, he]
  rfl

/-- A scan of any tree gives the keys of its map in ascending order, with their
entries. -/
theorem cacheScan_spec {trees : List (Sptree × NodeTree Ptr)} {x : Sptree × NodeTree Ptr}
    (hinv : CacheInv s trees free) (hx : x ∈ trees) (hshows : Shows s x.2 map) :
    ∃ entries, cacheScan x.1 s = some entries ∧ (entries.map Prod.fst).Pairwise (· < ·) ∧
      ∀ k e, (k, e) ∈ entries ↔ map k = some e := by
  refine ⟨_, cacheScan_eq hinv hx, ?_, fun k e => ?_⟩
  · rw [List.map_map, List.pairwise_map]
    exact hinv.forest.sorted x hx
  · rw [List.mem_map]
    constructor
    · rintro ⟨p, hp, heq⟩
      obtain ⟨ent, he⟩ := hinv.ent_isSome (mem_treeNodes hx hp)
      simp only [CacheState.read, he, Option.getD_some, Prod.mk.injEq] at heq
      rw [← heq.1, ← heq.2, ← he]
      exact (hshows.ent p hp).symm
    · intro hk
      obtain ⟨p, hp, rfl⟩ := hshows.key k (by rw [hk]; exact Option.some_ne_none e)
      refine ⟨p, hp, ?_⟩
      simp only [CacheState.read, hshows.ent p hp, hk, Option.getD_some]

/-- A scan of a tree whose blocks nothing was stored to. -/
theorem cacheScan_same {trees trees' : List (Sptree × NodeTree Ptr)} {free' : List Ptr}
    {x : Sptree × NodeTree Ptr} (hinv : CacheInv s trees free) (hx : x ∈ trees)
    (hinv' : CacheInv s' trees' free') (hx' : x ∈ trees') (hsame : SameEnts s s' x.2.inorder) :
    cacheScan x.1 s' = cacheScan x.1 s := by
  rw [cacheScan_eq hinv hx, cacheScan_eq hinv' hx']
  refine congrArg some (List.map_congr_left fun p hp => ?_)
  rw [CacheState.read, CacheState.read, (hsame p hp).1, (hsame p hp).2]

end

end Gnuais
