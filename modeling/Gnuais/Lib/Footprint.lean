import Gnuais.Lib.LinkTree

/-!
# What a program on linked nodes touches

`h.overwrite ps junk` is `h` with the fields of the nodes in `ps` replaced.
A program that neither reads nor writes these nodes commutes with it: started on
the overwritten links it does the same, and leaves what was written there.

To show this for a program that follows links, its nodes must lie in a set that
no link leaves (`Closed`). Stores within the set keep it closed and commute with
overwriting; the nodes of a tree are closed (`Shape.closed`).
-/

namespace LinkTree

variable {P : Type}

namespace Links

/-- No link of these nodes leads out of them. -/
structure Closed (h : Links P) (xs : List P) : Prop where
  /-- neither downwards -/
  link : ∀ p ∈ xs, ∀ d c, h.link d p = some c → c ∈ xs
  /-- nor upwards -/
  uplink : ∀ p ∈ xs, ∀ c, h.uplink p = some c → c ∈ xs

variable [DecidableEq P]

/-- The links with those of the nodes in `ps` taken from `junk`. -/
def overwrite (h : Links P) (ps : List P) (junk : Links P) : Links P where
  link d p := if p ∈ ps then junk.link d p else h.link d p
  uplink p := if p ∈ ps then junk.uplink p else h.uplink p

variable {h junk : Links P} {ps xs : List P} {d : Dir} {p : P} {c : Option P}

/-! ## Reads

A program cannot tell the overwritten links from the old ones as long as it reads nodes
outside `ps`. -/

/-- A node outside `ps` is read as before. -/
theorem overwrite_link (hp : p ∉ ps) : (h.overwrite ps junk).link d p = h.link d p := if_neg hp

theorem overwrite_uplink (hp : p ∉ ps) : (h.overwrite ps junk).uplink p = h.uplink p := if_neg hp

/-! ## Stores

And stores to such nodes are found again under the overwriting. -/

/-- A store to a node outside `ps`, before or after the overwriting. -/
theorem setLink_overwrite (hp : p ∉ ps) :
    (h.overwrite ps junk).setLink d p c = (h.setLink d p c).overwrite ps junk := by
  rw [setLink, setLink, overwrite, overwrite]
  congr 1
  funext e q
  by_cases hq : e = d ∧ q = p
  · rw [if_pos hq, if_neg (hq.2 ▸ hp)]
    exact (if_pos hq).symm
  · simp only [if_neg hq]

theorem setUp_overwrite (hp : p ∉ ps) :
    (h.overwrite ps junk).setUp p c = (h.setUp p c).overwrite ps junk := by
  rw [setUp, setUp, overwrite, overwrite]
  congr 1
  funext q
  by_cases hq : q = p
  · rw [if_pos hq, if_neg (hq ▸ hp)]
    exact (if_pos hq).symm
  · simp only [if_neg hq]

theorem attach_overwrite (hp : p ∉ ps) (hc : ∀ x, c = some x → x ∉ ps) :
    (h.overwrite ps junk).attach d p c = (h.attach d p c).overwrite ps junk := by
  cases c with
  | none => exact setLink_overwrite hp
  | some x => rw [attach, attach, setLink_overwrite hp, setUp_overwrite (hc x rfl)]

/-- A store of a link to a node of the set. -/
theorem Closed.setLink (hh : h.Closed xs) (hc : ∀ x, c = some x → x ∈ xs) :
    (h.setLink d p c).Closed xs where
  link q hq e x hx := by
    rw [setLink_link] at hx
    split at hx
    · exact hc x hx
    · exact hh.link q hq e x hx
  uplink := hh.uplink

theorem Closed.setUp (hh : h.Closed xs) (hc : ∀ x, c = some x → x ∈ xs) :
    (h.setUp p c).Closed xs where
  link := hh.link
  uplink q hq x hx := by
    rw [setUp_uplink] at hx
    split at hx
    · exact hc x hx
    · exact hh.uplink q hq x hx

theorem Closed.attach (hh : h.Closed xs) (hp : p ∈ xs) (hc : ∀ x, c = some x → x ∈ xs) :
    (h.attach d p c).Closed xs := by
  cases c with
  | none => exact hh.setLink hc
  | some x =>
    refine (hh.setLink hc).setUp fun y hy => ?_
    rwa [← Option.some.inj hy]

end Links

/-! ## Trees

In a tree the children of a node are in it, and so is its parent if nothing is above the
root. -/

open Context

/-- The nodes of a tree with nothing above its root are closed. -/
theorem Shape.closed {h : Links P} {root : Option P} {t : NodeTree P} (hs : Shape h root t)
    (hroot : ∀ c, root = some c → h.uplink c = none) : h.Closed t.inorder := by
  have hparts : ∀ p ∈ t.inorder, (∀ d c, h.link d p = some c → c ∈ t.inorder) ∧
      ∀ c, h.uplink p = some c → c ∈ t.inorder := by
    intro p hp
    obtain ⟨l, r, ctx, rfl⟩ := exists_plug hp
    obtain ⟨hl, hr, hup, -, -⟩ := shape_plug hroot ctx .left l p r hs
    simp only [inorder_plug, mem_around, NodeTree.inorder_node, List.mem_append, List.mem_cons]
    refine ⟨fun d c hc => ?_, fun c hc => .inr ?_⟩
    · cases d with
      | left => exact .inl (.inl (hl.mem hc))
      | right => exact .inl (.inr (.inr (hr.mem hc)))
    · rw [hup] at hc
      cases ctx with
      | nil => cases hc
      | cons s ctx =>
        obtain rfl := Option.some.inj hc
        exact List.mem_cons_self ..
  exact ⟨fun p hp => (hparts p hp).1, fun p hp => (hparts p hp).2⟩

end LinkTree
