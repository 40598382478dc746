import Gnuais.SplayUp

/-!
# Putting a node into a tree

`_sp_enq` splits the tree around the key of the new node `n` from the top down.
It walks down the tree as a search for the key would, and hangs what it passes
on two trees that grow below `n` itself, the smaller keys on the right and the
others on the left; the sides are exchanged at the end. While the loop runs each
of the two is a spine (`Splitting`); the loop ends with two trees that hold the
nodes of the old one in the same order, cut at the key (`enqLoop_spec`), so `n`
becomes the root of a tree in which it stands where its key belongs
(`spEnq_spec`).
-/

namespace Gnuais

open LinkTree Spine

/-! ## The loop

While the loop runs three parts of the old tree are in memory: two spines that hang below
`n`, and the tree that the search has not come to yet. They are stated with the direction
that is walked as a parameter, so the two labels of the source share every lemma. -/

variable {keys : Ptr → SpKey} {key : SpKey}

/-- A key is on the other side exactly if it is not on this one. -/
theorem belongs_flip (d : Dir) (k k' : SpKey) : belongs d.flip k k' = !belongs d k k' := by
  cases d <;> simp [belongs, Dir.flip]

/-- Inside the loop: a spine `A` below `n` in the direction walked, a spine `B` in the
other one, and the tree `N` that is not split yet. The three parts together have the nodes
of the tree, in the order in which `Dir.beside` lists them. -/
structure Splitting (keys : Ptr → SpKey) (key : SpKey) (h : Links Ptr) (n : Ptr) (d : Dir)
    (A B : Spine Ptr) (next : Ptr) (N : NodeTree Ptr) : Prop where
  /-- the spine that grows in the direction walked -/
  near : Holds h d n A
  /-- the other one; its link at the tip is not set yet -/
  far : Holds h d.flip n B
  /-- what is not split yet -/
  rest : Shape h (some next) N
  /-- no node is in two of the three, so no store to one changes another -/
  nodup : (n :: d.beside (list d.flip B) (d.beside N.inorder (list d A))).Nodup
  /-- the node at the tip is on the side of the key where it hangs; with the order of the
  nodes this says the same of all of them -/
  nearKey : ∀ s ∈ A.head?, belongs d key (keys s.1)
  /-- and so is the one at the other tip -/
  farKey : ∀ s ∈ B.head?, belongs d.flip key (keys s.1)
  /-- the loop has compared `next` and found that it goes to the near side -/
  nextKey : belongs d key (keys next)

/-- The two trees at the end of the loop: the nodes `xs` in order, cut at the key. The
smaller ones are on the right of `n`. The cut is where the key belongs, so the tree with
`n` between the parts is sorted again. -/
structure Split (keys : Ptr → SpKey) (key : SpKey) (h : Links Ptr) (n : Ptr) (xs : List Ptr)
    (L R : NodeTree Ptr) : Prop where
  /-- the smaller keys, on the right until the branches are exchanged -/
  left : Child h .right n L
  /-- the other keys -/
  right : Child h .left n R
  /-- no node is lost, and the order is the old one -/
  order : L.inorder ++ R.inorder = xs
  /-- the last one in front of the cut, and so all of them, as the nodes are sorted -/
  below : ∀ p ∈ L.inorder.getLast?, keys p < key
  /-- the first one behind the cut -/
  above : ∀ p ∈ R.inorder.head?, ¬ keys p < key

/-- Two finished spines are the two trees. -/
theorem split_of_spines {h : Links Ptr} {n : Ptr} {d : Dir} {A B : Spine Ptr}
    (hA : Holds h d n A) (hB : Holds h d.flip n B) (hnear : h.link d (tip n A) = none)
    (hfar : h.link d.flip (tip n B) = none) (hkeyA : ∀ s ∈ A.head?, belongs d key (keys s.1))
    (hkeyB : ∀ s ∈ B.head?, belongs d.flip key (keys s.1)) :
    ∃ L R, Split keys key h n (d.beside (list d.flip B) (list d A)) L R := by
  -- both tips are open: the two trees are the spines with a leaf there
  have hleaf : ∀ {e : Dir} {p : Ptr}, h.link e p = none → Child h e p .leaf := fun hp =>
    ⟨hp, fun c hc => by rw [hp] at hc; cases hc⟩
  have hA' := hA.fill (hleaf hnear)
  have hB' := hB.fill (hleaf hfar)
  have horder : ∀ (e : Dir) (sp : Spine Ptr), (fill e sp .leaf).inorder = list e sp := fun e sp => by
    rw [inorder_fill]
    cases e <;> simp [Dir.beside]
  have hlast : ∀ sp : Spine Ptr, (list .right sp).getLast? = sp.head?.map Prod.fst := by
    intro sp
    cases sp <;> simp [list, Dir.beside]
  have hfirst : ∀ sp : Spine Ptr, (list .left sp).head? = sp.head?.map Prod.fst := by
    intro sp
    cases sp <;> simp [list, Dir.beside]
  cases d with
  | left =>
    refine ⟨_, _, hB', hA', ?_, ?_, ?_⟩
    · rw [horder, horder]
      rfl
    · rw [horder, show Dir.left.flip = .right from rfl, hlast]
      rintro p hp
      obtain ⟨s, hs, rfl⟩ := Option.map_eq_some_iff.mp hp
      simpa [belongs, Dir.flip] using hkeyB s hs
    · rw [horder, hfirst]
      rintro p hp
      obtain ⟨s, hs, rfl⟩ := Option.map_eq_some_iff.mp hp
      simpa [belongs] using hkeyA s hs
  | right =>
    refine ⟨_, _, hA', hB', ?_, ?_, ?_⟩
    · rw [horder, horder]
      rfl
    · rw [horder, hlast]
      rintro p hp
      obtain ⟨s, hs, rfl⟩ := Option.map_eq_some_iff.mp hp
      simpa [belongs] using hkeyA s hs
    · rw [horder, show Dir.right.flip = .left from rfl, hfirst]
      rintro p hp
      obtain ⟨s, hs, rfl⟩ := Option.map_eq_some_iff.mp hp
      simpa [belongs, Dir.flip] using hkeyB s hs

/-- The tip is `n` itself or a node of the spine. -/
theorem tip_eq_or (d : Dir) (n : Ptr) (sp : Spine Ptr) : tip n sp = n ∨ tip n sp ∈ list d sp :=
  (tip_mem d n sp).imp_left And.left

/-- `next` with its tree on the other side goes below the tip. -/
theorem Splitting.hang {h : Links Ptr} {n : Ptr} {d : Dir} {A B : Spine Ptr} {next : Ptr}
    {D o : NodeTree Ptr} (hs : Splitting keys key h n d A B next (.join d D next o)) :
    Holds (h.attach d (tip n A) (some next)) d n ((next, o) :: A) ∧
      Holds (h.attach d (tip n A) (some next)) d.flip n B ∧
      Child (h.attach d (tip n A) (some next)) d next D ∧
      (h.attach d (tip n A) (some next)).link d next = h.link d next ∧
      (h.attach d (tip n A) (some next)).uplink n = h.uplink n ∧
      ∀ q ∉ n :: d.beside (list d.flip B) (d.beside (NodeTree.join d D next o).inorder (list d A)),
        h.Same (h.attach d (tip n A) (some next)) q := by
  obtain ⟨-, hD, ho⟩ := (shape_join d).mp hs.rest
  have hnodup := hs.nodup
  have htip := tip_eq_or d n A
  simp only [NodeTree.inorder_join, List.nodup_cons, Dir.nodup_beside, Dir.mem_beside,
    List.disjoint_left, List.mem_singleton, not_or] at hnodup
  have hnA : (n :: list d A).Nodup := List.nodup_cons.mpr (by grind)
  have hnB : (n :: list d.flip B).Nodup := List.nodup_cons.mpr (by grind)
  refine ⟨⟨?_, by simp, by simp, ?_⟩, ?_, ?_, ?_, ?_, ?_⟩
  · exact ho.attach (by grind) (.inl d.flip_ne) (by grind) (by grind)
  · refine hs.near.attach hnA (.inr ⟨rfl, rfl⟩) (fun hn => .inr ?_) (by grind)
    exact ((tip_mem d n A).resolve_right fun hmem => by grind).2
  · exact hs.far.attach hnB (.inl (by grind)) (fun _ => .inl d.ne_flip) (by grind)
  · exact hD.attach (by grind) (.inr (by grind)) (by grind) (by grind)
  · rw [Links.attach_link, if_neg (by grind)]
  · rw [Links.attach_uplink, if_neg (by grind)]
  · intro q hq
    simp only [NodeTree.inorder_join, List.mem_cons, Dir.mem_beside, not_or] at hq
    refine Links.same_attach h d ?_ ?_
    · grind
    · grind

/-- `next` goes below `temp`, its child on the side walked, and `temp` below the
tip. -/
theorem Splitting.rotate {h : Links Ptr} {n : Ptr} {d : Dir} {A B : Spine Ptr} {next temp : Ptr}
    {N o₂ o : NodeTree Ptr}
    (hs : Splitting keys key h n d A B next (.join d (.join d N temp o₂) next o)) :
    ∃ h', h' = ((h.attach d next (h.link d.flip temp)).attach d (tip n A) (some temp)).attach d.flip
        temp (some next) ∧
      Holds h' d n ((temp, .join d o₂ next o) :: A) ∧ Holds h' d.flip n B ∧ Child h' d temp N ∧
      h'.uplink n = h.uplink n ∧
      ∀ q ∉ n :: d.beside (list d.flip B)
          (d.beside (NodeTree.join d (.join d N temp o₂) next o).inorder (list d A)), h.Same h' q := by
  obtain ⟨-, hnext, ho⟩ := (shape_join d).mp hs.rest
  obtain ⟨hlink, hN, ho₂⟩ := (shape_join d).mp hnext.1
  -- all comparisons of pointers below come from the nodes being different
  have hnodup := hs.nodup
  have htip := tip_eq_or d n A
  simp only [NodeTree.inorder_join, List.nodup_cons, Dir.nodup_beside, Dir.mem_beside,
    List.disjoint_left, List.mem_singleton, not_or] at hnodup
  have hnA : (n :: list d A).Nodup := List.nodup_cons.mpr (by grind)
  have hnB : (n :: list d.flip B).Nodup := List.nodup_cons.mpr (by grind)
  have hroot₂ : ∀ x, h.link d.flip temp = some x → x ∈ o₂.inorder := fun x => ho₂.mem
  -- `next` takes the inner subtree of `temp`
  have h₁o₂ : Child (h.attach d next (h.link d.flip temp)) d next o₂ :=
    ho₂.1.attach (by grind) (by grind) d
  have h₁o : Child (h.attach d next (h.link d.flip temp)) d.flip next o :=
    ho.attach (by grind) (.inl d.flip_ne) (by grind) (by grind)
  have h₁N : Child (h.attach d next (h.link d.flip temp)) d temp N :=
    hN.attach (by grind) (.inr (by grind)) (by grind) (by grind)
  have h₁A : Holds (h.attach d next (h.link d.flip temp)) d n A :=
    hs.near.attach hnA (.inl (by grind)) (by grind) (by grind)
  have h₁B : Holds (h.attach d next (h.link d.flip temp)) d.flip n B :=
    hs.far.attach hnB (.inl (by grind)) (by grind) (by grind)
  have hjoin : (NodeTree.join d o₂ next o).inorder.Nodup := (NodeTree.nodup_join ..).mpr
    ⟨by grind, by grind, by grind, by grind, List.disjoint_left.mpr (by grind)⟩
  have hmem : ∀ q ∈ (NodeTree.join d o₂ next o).inorder,
      q = next ∨ q ∈ o₂.inorder ∨ q ∈ o.inorder := fun q => (NodeTree.mem_inorder_join ..).mp
  have h₁same : ∀ q, q ≠ next → q ∉ o₂.inorder →
      h.Same (h.attach d next (h.link d.flip temp)) q := fun q hq hqo =>
    Links.same_attach h d hq fun hx => hqo (hroot₂ q hx)
  have h₁n : (h.attach d next (h.link d.flip temp)).uplink n = h.uplink n := by
    rw [Links.attach_uplink, if_neg fun hx => by grind]
  generalize h.attach d next (h.link d.flip temp) = h₁ at *
  -- then `temp` goes below the tip
  have h₂next : Shape (h₁.attach d (tip n A) (some temp)) (some next) (.join d o₂ next o) :=
    ((shape_join d).mpr ⟨rfl, h₁o₂, h₁o⟩).same hjoin fun q hq =>
      Links.same_attach h₁ d (by grind) (by grind)
  have h₂N : Child (h₁.attach d (tip n A) (some temp)) d temp N :=
    h₁N.attach (by grind) (.inr (by grind)) (by grind) (by grind)
  have h₂A : Holds (h₁.attach d (tip n A) (some temp)) d n A := by
    refine h₁A.attach hnA (.inr ⟨rfl, rfl⟩) (fun hn => .inr ?_) (by grind)
    exact ((tip_mem d n A).resolve_right fun hmem => by grind).2
  have h₂B : Holds (h₁.attach d (tip n A) (some temp)) d.flip n B :=
    h₁B.attach hnB (.inl (by grind)) (fun _ => .inl d.ne_flip) (by grind)
  have h₂tip : (h₁.attach d (tip n A) (some temp)).link d (tip n A) = some temp := by simp
  have h₂temp : (h₁.attach d (tip n A) (some temp)).uplink temp = some (tip n A) := by simp
  have h₂same : ∀ q, q ≠ tip n A → q ≠ temp → h₁.Same (h₁.attach d (tip n A) (some temp)) q :=
    fun q hq hqt => Links.same_attach h₁ d hq fun hx => hqt (Option.some.inj hx).symm
  have h₂n : (h₁.attach d (tip n A) (some temp)).uplink n = h₁.uplink n := by
    rw [Links.attach_uplink, if_neg (by grind)]
  generalize h₁.attach d (tip n A) (some temp) = h₂ at *
  -- and last `next` goes below `temp`
  refine ⟨_, rfl, ⟨h₂next.attach hjoin (by grind) d.flip, ?_, ?_, ?_⟩, ?_, ?_, ?_, ?_⟩
  · rw [Links.attach_link, if_neg fun hh => d.ne_flip hh.1, h₂tip]
  · rw [Links.attach_uplink, if_neg (by grind), h₂temp]
  · exact h₂A.attach hnA (.inl (by grind)) (fun _ => .inl d.flip_ne) (by grind)
  · exact h₂B.attach hnB (.inl (by grind)) (by grind) (by grind)
  · exact h₂N.attach (by grind) (.inl d.ne_flip) (by grind) (by grind)
  · rw [Links.attach_uplink, if_neg (by grind), h₂n, h₁n]
  · intro q hq
    simp only [NodeTree.inorder_join, List.mem_cons, Dir.mem_beside, not_or] at hq
    refine ((h₁same q (by grind) (by grind)).trans (h₂same q (by grind) (by grind))).trans ?_
    exact Links.same_attach h₂ d.flip (by grind) (by grind)

/-! ## One turn of the loop

A turn has three ways to go on. `next` has no child on the side walked, and the
loop ends (`Splitting.stop`); its child there belongs on the other side, so `next`
goes below the tip and the sides change (`Splitting.change`); or the child belongs
on this side too, and both go below the tip by a rotation (`Splitting.goOn`).
Each is stated for the turn that it takes, over what the turns left do. -/

/-- What the loop owes when it starts from the links `h`: it ends, with the nodes
`xs` cut at the key, and has not touched any other node. -/
def Cuts (keys : Ptr → SpKey) (key : SpKey) (h : Links Ptr) (n : Ptr) (xs : List Ptr)
    (result : Option (Links Ptr)) : Prop :=
  ∃ h' L R, result = some h' ∧ Split keys key h' n xs L R ∧ h'.uplink n = h.uplink n ∧
    ∀ q ∉ n :: xs, h.Same h' q

/-- A turn that changes links of the nodes `xs` only leaves to the next ones what
it owes itself. -/
theorem Cuts.after {h h₁ : Links Ptr} {n : Ptr} {xs : List Ptr} {result : Option (Links Ptr)}
    (hcuts : Cuts keys key h₁ n xs result) (hup : h₁.uplink n = h.uplink n)
    (hsame : ∀ q ∉ n :: xs, h.Same h₁ q) : Cuts keys key h n xs result := by
  obtain ⟨h', L, R, hresult, hsplit, hup', hsame'⟩ := hcuts
  exact ⟨h', L, R, hresult, hsplit, hup'.trans hup, fun q hq => (hsame q hq).trans (hsame' q hq)⟩

/-- What is owed by `turns` turns from any splitting they are enough for. This is the
hypothesis of the induction on the turns. It has both directions in it, since a turn may
go on in the other one. -/
def TurnsCut (keys : Ptr → SpKey) (key : SpKey) (n : Ptr) (turns : ℕ) : Prop :=
  ∀ {d : Dir} {A B : Spine Ptr} {next : Ptr} {N : NodeTree Ptr} {h : Links Ptr},
    N.inorder.length ≤ turns → Splitting keys key h n d A B next N →
    Cuts keys key h n (d.beside (list d.flip B) (d.beside N.inorder (list d A)))
      (enqLoop keys key turns d (tip n A) (tip n B) next h)

/-- The last store of the loop ends the other spine. -/
theorem split_finish {h : Links Ptr} {n : Ptr} {d : Dir} {A B : Spine Ptr} (hA : Holds h d n A)
    (hB : Holds h d.flip n B) (hnear : h.link d (tip n A) = none)
    (hnodup : (n :: d.beside (list d.flip B) (list d A)).Nodup)
    (hkeyA : ∀ s ∈ A.head?, belongs d key (keys s.1))
    (hkeyB : ∀ s ∈ B.head?, belongs d.flip key (keys s.1)) :
    Cuts keys key h n (d.beside (list d.flip B) (list d A))
      (some (h.setLink d.flip (tip n B) none)) := by
  have htip := tip_eq_or d.flip n B
  simp only [List.nodup_cons, Dir.nodup_beside, Dir.mem_beside, List.disjoint_left, not_or]
    at hnodup
  have hA' : Holds (h.attach d.flip (tip n B) none) d n A :=
    hA.attach (List.nodup_cons.mpr (by grind)) (.inl (by grind)) (fun _ => .inl d.flip_ne)
      (by grind)
  have hB' : Holds (h.attach d.flip (tip n B) none) d.flip n B := by
    refine hB.attach (List.nodup_cons.mpr (by grind)) (.inr ⟨rfl, rfl⟩) (fun hn => .inr ?_)
      (by grind)
    exact ((tip_mem d.flip n B).resolve_right fun hmem => by grind).2
  have hnear' : (h.attach d.flip (tip n B) none).link d (tip n A) = none := by
    rw [Links.attach_link, if_neg fun hh => d.ne_flip hh.1, hnear]
  obtain ⟨L, R, hsplit⟩ := split_of_spines hA' hB' hnear' (by simp) hkeyA hkeyB
  refine ⟨_, L, R, rfl, hsplit, rfl, fun q hq => Links.same_setLink h _ _ ?_⟩
  simp only [List.mem_cons, Dir.mem_beside, not_or] at hq
  grind

/-- Changing sides. -/
theorem Splitting.flip {h : Links Ptr} {n : Ptr} {d : Dir} {A B : Spine Ptr} {next : Ptr}
    {N : NodeTree Ptr} (hA : Holds h d n A) (hB : Holds h d.flip n B) (hN : Shape h (some next) N)
    (hnodup : (n :: d.beside (list d.flip B) (d.beside N.inorder (list d A))).Nodup)
    (hkeyA : ∀ s ∈ A.head?, belongs d key (keys s.1))
    (hkeyB : ∀ s ∈ B.head?, belongs d.flip key (keys s.1))
    (hnext : belongs d key (keys next) = false) : Splitting keys key h n d.flip B A next N where
  near := hB
  far := by rwa [Dir.flip_flip]
  rest := hN
  nodup := by rwa [Dir.flip_flip, Dir.flip_beside, Dir.flip_beside, Dir.beside_assoc]
  nearKey := hkeyB
  farKey := by rwa [Dir.flip_flip]
  nextKey := by rw [belongs_flip, hnext]; rfl

/-- The turns left, entered at the label of the other side. The nodes are in the
same order, seen from there. -/
theorem TurnsCut.flip {n : Ptr} {turns : ℕ} (ih : TurnsCut keys key n turns) {h : Links Ptr}
    {d : Dir} {A B : Spine Ptr} {next : Ptr} {N : NodeTree Ptr} (hlen : N.inorder.length ≤ turns)
    (hA : Holds h d n A) (hB : Holds h d.flip n B) (hN : Shape h (some next) N)
    (hnodup : (n :: d.beside (list d.flip B) (d.beside N.inorder (list d A))).Nodup)
    (hkeyA : ∀ s ∈ A.head?, belongs d key (keys s.1))
    (hkeyB : ∀ s ∈ B.head?, belongs d.flip key (keys s.1))
    (hnext : belongs d key (keys next) = false) :
    Cuts keys key h n (d.beside (list d.flip B) (d.beside N.inorder (list d A)))
      (enqLoop keys key turns d.flip (tip n B) (tip n A) next h) := by
  have hcuts := ih hlen (Splitting.flip hA hB hN hnodup hkeyA hkeyB hnext)
  rwa [Dir.flip_flip, Dir.flip_beside, Dir.flip_beside, Dir.beside_assoc] at hcuts

/-- The first step of the near spine is the one just hung there. -/
theorem nearKey_cons {d : Dir} {p : Ptr} {o : NodeTree Ptr} {A : Spine Ptr}
    (hkey : belongs d key (keys p)) : ∀ s ∈ ((p, o) :: A).head?, belongs d key (keys s.1) := by
  rintro s hs
  obtain rfl := Option.some.inj hs
  exact hkey

/-- Nothing hangs on the side walked: `next` is the last node below the tip. -/
theorem Splitting.stop {h : Links Ptr} {n : Ptr} {d : Dir} {A B : Spine Ptr} {next : Ptr}
    {o : NodeTree Ptr} (hs : Splitting keys key h n d A B next (.join d .leaf next o)) (turns : ℕ)
    (hnone : h.link d next = none) :
    Cuts keys key h n
      (d.beside (list d.flip B) (d.beside (NodeTree.join d .leaf next o).inorder (list d A)))
      (enqLoop keys key (turns + 1) d (tip n A) (tip n B) next h) := by
  obtain ⟨hA, hB, hleaf, -, hup, hsame⟩ := hs.hang
  have hnodup := hs.nodup
  have horder : d.beside (list d.flip B)
      (d.beside (NodeTree.join d .leaf next o).inorder (list d A)) =
      d.beside (list d.flip B) (list d ((next, o) :: A)) := by
    rw [NodeTree.inorder_join, NodeTree.inorder_leaf, Dir.nil_beside, list]
  rw [horder] at hnodup hsame ⊢
  rw [enqLoop, hnone]
  exact (split_finish hA hB hleaf.1 hnodup (nearKey_cons hs.nextKey) hs.farKey).after hup hsame

/-- `temp` belongs on the other side: `next` goes below the tip, and the loop goes
on from `temp` with the sides changed. -/
theorem Splitting.change {h : Links Ptr} {n : Ptr} {d : Dir} {A B : Spine Ptr} {next temp : Ptr}
    {D o : NodeTree Ptr} (hs : Splitting keys key h n d A B next (.join d D next o)) {turns : ℕ}
    (ih : TurnsCut keys key n turns) (hlen : D.inorder.length ≤ turns)
    (htemp : h.link d next = some temp) (hkey : belongs d key (keys temp) = false) :
    Cuts keys key h n
      (d.beside (list d.flip B) (d.beside (NodeTree.join d D next o).inorder (list d A)))
      (enqLoop keys key (turns + 1) d (tip n A) (tip n B) next h) := by
  obtain ⟨hA, hB, hchild, hlink, hup, hsame⟩ := hs.hang
  have hnodup := hs.nodup
  have horder : d.beside (list d.flip B)
      (d.beside (NodeTree.join d D next o).inorder (list d A)) =
      d.beside (list d.flip B) (d.beside D.inorder (list d ((next, o) :: A))) := by
    rw [NodeTree.inorder_join, Dir.beside_assoc, list, Dir.beside_assoc]
  rw [horder] at hnodup hsame ⊢
  rw [htemp] at hlink
  rw [enqLoop, htemp]
  simp only [hkey, Bool.false_eq_true, if_false]
  exact (ih.flip hlen hA hB (hlink ▸ hchild.1) hnodup (nearKey_cons hs.nextKey) hs.farKey
    hkey).after hup hsame

/-- `temp` belongs on the side walked: after the rotation the loop ends, goes on
from the child of `temp`, or changes sides there. -/
theorem Splitting.goOn {h : Links Ptr} {n : Ptr} {d : Dir} {A B : Spine Ptr} {next temp : Ptr}
    {N o₂ o : NodeTree Ptr}
    (hs : Splitting keys key h n d A B next (.join d (.join d N temp o₂) next o)) {turns : ℕ}
    (ih : TurnsCut keys key n turns) (hlen : N.inorder.length ≤ turns)
    (htemp : h.link d next = some temp) (hkey : belongs d key (keys temp)) :
    Cuts keys key h n (d.beside (list d.flip B)
        (d.beside (NodeTree.join d (.join d N temp o₂) next o).inorder (list d A)))
      (enqLoop keys key (turns + 1) d (tip n A) (tip n B) next h) := by
  obtain ⟨h', hh', hA, hB, hN, hup, hsame⟩ := hs.rotate
  have hnodup := hs.nodup
  have horder : d.beside (list d.flip B)
      (d.beside (NodeTree.join d (.join d N temp o₂) next o).inorder (list d A)) =
      d.beside (list d.flip B) (d.beside N.inorder (list d ((temp, .join d o₂ next o) :: A))) := by
    simp only [NodeTree.inorder_join, Dir.beside_assoc, list]
  have hkeyA := nearKey_cons (o := .join d o₂ next o) (A := A) hkey
  rw [horder] at hnodup hsame ⊢
  rw [enqLoop, htemp]
  simp only [hkey, if_true]
  rw [← hh']
  cases hlink : h'.link d temp with
  | none =>
    obtain rfl := (hlink ▸ hN.1).eq_leaf
    rw [NodeTree.inorder_leaf, Dir.nil_beside] at hnodup hsame ⊢
    exact (split_finish hA hB hlink hnodup hkeyA hs.farKey).after hup hsame
  | some next' =>
    have hrest : Shape h' (some next') N := hlink ▸ hN.1
    simp only
    by_cases hnext : belongs d key (keys next')
    · rw [if_pos hnext]
      exact (ih hlen ⟨hA, hB, hrest, hnodup, hkeyA, hs.farKey, hnext⟩).after hup hsame
    · rw [if_neg hnext]
      exact (ih.flip hlen hA hB hrest hnodup hkeyA hs.farKey (by simpa using hnext)).after hup hsame

/-- The loop cuts the nodes at the key. The induction is on the turns; every
turn takes a node off the tree that is not split yet. -/
theorem enqLoop_spec (n : Ptr) (turns : ℕ) : TurnsCut keys key n turns := by
  induction turns with
  | zero =>
    intro d A B next N h hlen hs
    obtain ⟨D, o, rfl, -, -⟩ := hs.rest.exists_join d
    have hmem := (NodeTree.mem_inorder_join d D next o next).mpr (.inl rfl)
    rw [List.length_eq_zero_iff.mp (Nat.le_zero.mp hlen)] at hmem
    cases hmem
  | succ turns ih =>
    intro d A B next N h hlen hs
    obtain ⟨D, o, rfl, hD, -⟩ := hs.rest.exists_join d
    rw [NodeTree.length_join] at hlen
    cases htemp : h.link d next with
    | none =>
      obtain rfl := (htemp ▸ hD.1).eq_leaf
      exact hs.stop turns htemp
    | some temp =>
      by_cases hkey : belongs d key (keys temp)
      · obtain ⟨N, o₂, rfl, -, -⟩ := (htemp ▸ hD.1).exists_join d
        rw [NodeTree.length_join] at hlen
        exact hs.goOn ih (by omega) htemp hkey
      · exact hs.change ih (by omega) htemp (by simpa using hkey)

/-! ## The whole operation

After the loop the smaller keys hang on the right of `n`. Two stores exchange the
branches, and the uplinks of the two roots were right all the time. -/

/-- The branches of `n` are exchanged. -/
theorem isTree_reversed {h : Links Ptr} {n : Ptr} {L R : NodeTree Ptr} (hL : Child h .right n L)
    (hR : Child h .left n R) (hup : h.uplink n = none)
    (hnodup : (L.inorder ++ n :: R.inorder).Nodup) :
    IsTree ((h.setLink .left n (h.link .right n)).setLink .right n (h.link .left n)) (some n)
      (.node L n R) := by
  obtain ⟨hnL, hnR, hLn, hRn, -⟩ := (NodeTree.nodup_join .left L n R).mp hnodup
  have hsame : ∀ q, q ≠ n →
      h.Same ((h.setLink .left n (h.link .right n)).setLink .right n (h.link .left n)) q :=
    fun q hq => (Links.same_setLink h .left _ hq).trans (Links.same_setLink _ .right _ hq)
  refine ⟨⟨rfl, ?_, ?_⟩, ?_, hnodup⟩
  · rw [Links.setLink_link, if_neg (by simp), Links.setLink_link, if_pos ⟨rfl, rfl⟩]
    exact ⟨hL.1.same hLn fun q hq => hsame q fun heq => hnL (heq ▸ hq), hL.2⟩
  · rw [Links.setLink_link, if_pos ⟨rfl, rfl⟩]
    exact ⟨hR.1.same hRn fun q hq => hsame q fun heq => hnR (heq ▸ hq), hR.2⟩
  · rintro c hc
    obtain rfl := Option.some.inj hc
    exact hup

/-- `_sp_enq` makes `n` the root of a tree with the same nodes in the same order
and `n` between them where its key belongs, and touches no other node. -/
theorem spEnq_spec (q : Sptree) {m : Memory} {t : NodeTree Ptr} {n : Ptr}
    (ht : IsTree m.links q.root t) (hn : n ∉ t.inorder) (hlen : t.inorder.length ≤ m.brk) :
    ∃ h L R, spEnq n q m = some ({ q with root := some n }, { m with links := h }) ∧
      IsTree h (some n) (.node L n R) ∧ L.inorder ++ R.inorder = t.inorder ∧
      (∀ p ∈ L.inorder.getLast?, m.key p < m.key n) ∧
      (∀ p ∈ R.inorder.head?, ¬ m.key p < m.key n) ∧
      ∀ p ∉ n :: t.inorder, m.links.Same h p := by
  have hsetup : ∀ p, p ≠ n → m.links.Same (m.links.setUp n none) p := fun p hp =>
    Links.same_setUp _ _ hp
  have ht₀ : Shape (m.links.setUp n none) q.root t := ht.shape.same ht.nodup fun p hp =>
    hsetup p fun heq => hn (heq ▸ hp)
  cases hroot : q.root with
  -- the tree is empty, so `n` is all of it
  | none =>
    rw [hroot] at ht₀
    obtain rfl := ht₀.eq_leaf
    refine ⟨_, .leaf, .leaf, by rw [spEnq, hroot]; rfl, ?_, rfl, by simp, by simp, fun p hp => ?_⟩
    · refine ⟨⟨rfl, ⟨by simp [Shape], by simp⟩, ⟨by simp [Shape], by simp⟩⟩, ?_, by simp⟩
      rintro c hc
      obtain rfl := Option.some.inj hc
      simp
    · have hpn : p ≠ n := fun heq => hp (heq ▸ List.mem_cons_self ..)
      exact ((hsetup p hpn).trans (Links.same_setLink _ .left _ hpn)).trans
        (Links.same_setLink _ .right _ hpn)
  | some next =>
    rw [hroot] at ht₀
    -- in front of the loop both spines are empty
    have hstart : Splitting m.key (m.key n) (m.links.setUp n none) n
        (if m.key next < m.key n then .right else .left) [] [] next t := by
      refine ⟨trivial, trivial, ht₀, ?_, by simp, by simp, ?_⟩
      · rw [list, list, Dir.nil_beside, ← Dir.flip_beside, Dir.nil_beside]
        exact List.nodup_cons.mpr ⟨hn, ht.nodup⟩
      · split <;> simp_all [belongs]
    obtain ⟨h, L, R, hloop, hsplit, hup, hsame⟩ := enqLoop_spec n m.brk hlen hstart
    rw [list, list, Dir.nil_beside, ← Dir.flip_beside, Dir.nil_beside] at hsplit hsame
    have hupn : h.uplink n = none := hup.trans (if_pos rfl)
    have hnodup : (L.inorder ++ n :: R.inorder).Nodup := by
      rw [List.nodup_middle, hsplit.order]
      exact List.nodup_cons.mpr ⟨hn, ht.nodup⟩
    refine ⟨_, L, R, ?_, isTree_reversed hsplit.left hsplit.right hupn hnodup, hsplit.order,
      hsplit.below, hsplit.above, fun p hp => ?_⟩
    · rw [spEnq, hroot]
      simp only [tip] at hloop
      simp only [hloop, Option.bind_eq_bind, Option.bind_some]
      rfl
    · have hpn : p ≠ n := fun heq => hp (heq ▸ List.mem_cons_self ..)
      exact (((hsetup p hpn).trans (hsame p hp)).trans (Links.same_setLink _ .left _ hpn)).trans
        (Links.same_setLink _ .right _ hpn)

end Gnuais
