import Gnuais.Splay

/-!
# Splaying a node to the root

`_splay` takes the path above a node apart, one or two nodes a turn, and hangs
every node on the path on one of two trees: those left of the node and those
right of it. A rotation only rearranges the path (`rotateUp_spec`); the turn
then hangs the lowest node of the path on a tree (`attach_step`). Between two
turns the tree is a node, two trees and what is left of the path (`Splaying`),
with the same nodes in the same order all along, and at the end the node is the
root (`splay_spec`). No link of any other block changes.
-/

namespace Gnuais

open LinkTree Context

/-! ## One turn

If the last two steps of the path go in the same direction, a turn first rotates them, so
that the path gets shorter by one node without anything being hung; this is what makes the
tree balanced in the long run, and it does not matter for what the tree holds. The turn
then takes the lowest node off the path and puts it on top of the tree on its side. -/

/-- The link of the grandparent that is changed is the one to the parent. -/
theorem redirect_eq {h : Links Ptr} {g u : Ptr} {s : Step Ptr} {ctx : Context Ptr}
    (hpoints : PointsTo h u (s :: ctx)) (habove : Above h (s :: ctx))
    (hu : u ∉ nodes (s :: ctx)) (d : Dir) :
    (if h.link d s.node = some u then h.setLink d s.node (some g)
      else h.setLink d.flip s.node (some g)) = redirect h g (s :: ctx) := by
  have hlink : h.link s.dir s.node = some u := hpoints
  by_cases hd : s.dir = d
  · rw [if_pos (hd ▸ hlink), redirect, hd]
  · have hflip : s.dir.flip = d := by
      revert hd
      cases s.dir <;> cases d <;> simp [Dir.flip]
    rw [if_neg, ← hflip, Dir.flip_flip]
    · rfl
    · rw [← hflip]
      exact fun hmem => hu (List.mem_cons_of_mem _ (List.mem_append_left _ (habove.1.mem hmem)))

/-- A path whose lowest two steps go the same way is rotated. -/
theorem rotateUp_rotates {h : Links Ptr} {d : Dir} {p p₂ : Ptr} {o o₂ : NodeTree Ptr}
    {ctx : Context Ptr} (habove : Above h (⟨d, p, o⟩ :: ⟨d, p₂, o₂⟩ :: ctx))
    (hnodup : (nodes (⟨d, p, o⟩ :: ⟨d, p₂, o₂⟩ :: ctx)).Nodup) (root : Option Ptr) :
    ∃ h' root', rotateUp d p h root = (h', root', parent ctx) ∧
      Above h' (⟨d, p, .join d o p₂ o₂⟩ :: ctx) ∧
      ∀ q ∉ nodes (⟨d, p, o⟩ :: ⟨d, p₂, o₂⟩ :: ctx), h.Same h' q := by
  obtain ⟨hother, hup, hpoints, hother₂, hup₂, hpoints₂, hrest⟩ := habove
  simp only [nodes, List.cons_append, List.nodup_cons, List.nodup_append', List.mem_append,
    List.mem_cons, not_or, List.disjoint_left] at hnodup
  obtain ⟨⟨hpo, hpp₂, hpo₂, hpc⟩, hno, ⟨⟨hp₂o₂, hp₂c⟩, hno₂, hnc, ho₂c⟩, hoc⟩ := hnodup
  have hp₂o : p₂ ∉ o.inorder := fun hmem => (hoc hmem).1 rfl
  -- the inner subtree of `p` moves to `p₂`, and `p₂` below `p`
  have hinner : Child (h.attach d p₂ (h.link d.flip p)) d p₂ o := hother.1.attach hno hp₂o d
  have houter : Child (h.attach d p₂ (h.link d.flip p)) d.flip p₂ o₂ :=
    hother₂.attach hno₂ (.inl d.flip_ne) hp₂o₂ fun x hx => fun hmem =>
      (hoc (hother.mem hx)).2.1 hmem
  have hjoin : (NodeTree.join d o p₂ o₂).inorder.Nodup :=
    (NodeTree.nodup_join d o p₂ o₂).mpr ⟨hp₂o, hp₂o₂, hno, hno₂, fun x hx => (hoc hx).2.1⟩
  have hp : p ∉ (NodeTree.join d o p₂ o₂).inorder := by
    rw [NodeTree.mem_inorder_join]
    tauto
  have hshape : Shape (h.attach d p₂ (h.link d.flip p)) (some p₂) (.join d o p₂ o₂) :=
    (shape_join d).mpr ⟨rfl, hinner, houter⟩
  obtain ⟨h₂, hh₂⟩ : ∃ h₂, h₂ = (h.attach d p₂ (h.link d.flip p)).attach d.flip p (some p₂) :=
    ⟨_, rfl⟩
  have hmoved : Child h₂ d.flip p (.join d o p₂ o₂) := hh₂ ▸ hshape.attach hjoin hp d.flip
  have hsame : ∀ q, q ≠ p → q ≠ p₂ → q ∉ o.inorder → h.Same h₂ q := fun q hqp hqp₂ hqo => by
    rw [hh₂]
    exact (Links.same_attach h d hqp₂ fun hx => hqo (hother.mem hx)).trans
      (Links.same_attach _ d.flip hqp fun hx => hqp₂ (Option.some.inj hx).symm)
  have hsamec : ∀ q ∈ nodes ctx, h.Same h₂ q := fun q hq =>
    hsame q (fun heq => hpc (heq ▸ hq)) (fun heq => hp₂c (heq ▸ hq)) fun hqo => (hoc hqo).2.2 hq
  -- then the grandparent's link and the uplink of `p`
  have heq : ∃ root', rotateUp d p h root =
      ((redirect h₂ p ctx).setUp p (parent ctx), root', parent ctx) := by
    have hlink : h.link d p₂ = some p := hpoints
    rw [rotateUp, hup]
    simp only [parent]
    rw [if_pos hlink, hup₂, ← hh₂]
    cases ctx with
    | nil => exact ⟨_, rfl⟩
    | cons s ctx =>
      simp only [parent]
      rw [redirect_eq (hpoints₂.frame hsamec) (hrest.frame hnc hsamec) hp₂c d]
      exact ⟨_, rfl⟩
  obtain ⟨root', heq⟩ := heq
  obtain ⟨hpoints', hrest'⟩ := (hrest.frame hnc hsamec).redirect hnc p
  -- the rotated subtree has no node of the path above in it, so the two last stores leave
  -- it alone
  have hjoinc : ∀ q ∈ (NodeTree.join d o p₂ o₂).inorder, q ∉ nodes ctx := by
    intro q hq
    rcases (NodeTree.mem_inorder_join d o p₂ o₂ q).mp hq with rfl | hqo | hqo₂
    · exact hp₂c
    · exact (hoc hqo).2.2
    · exact ho₂c hqo₂
  have hsetup : ∀ q, q ≠ p → (redirect h₂ p ctx).Same
      ((redirect h₂ p ctx).setUp p (parent ctx)) q := fun q hq => Links.same_setUp _ _ hq
  refine ⟨_, root', heq, ⟨?_, if_pos rfl, ?_, ?_⟩, ?_⟩
  · refine hmoved.frame hjoin ((same_redirect h₂ p hpc).1 _) fun q hq => ?_
    exact (same_redirect h₂ p (hjoinc q hq)).trans (hsetup q fun heq => hp (heq ▸ hq))
  · exact hpoints'.frame fun q hq => hsetup q fun heq => hpc (heq ▸ hq)
  · exact hrest'.frame hnc fun q hq => hsetup q fun heq => hpc (heq ▸ hq)
  · intro q hq
    simp only [nodes, List.cons_append, List.mem_cons, List.mem_append, not_or] at hq
    exact ((hsame q hq.1 hq.2.2.1 hq.2.1).trans (same_redirect h₂ p hq.2.2.2.2)).trans
      (hsetup q hq.1)

/-- The rotation of a turn, or its absence, keeps the path and its order. -/
theorem rotateUp_spec {h : Links Ptr} {d : Dir} {p : Ptr} {o : NodeTree Ptr} {ctx : Context Ptr}
    (habove : Above h (⟨d, p, o⟩ :: ctx)) (hnodup : (nodes (⟨d, p, o⟩ :: ctx)).Nodup)
    (root : Option Ptr) :
    ∃ h' root' o' ctx', rotateUp d p h root = (h', root', parent ctx') ∧
      Above h' (⟨d, p, o'⟩ :: ctx') ∧ ctx'.length ≤ ctx.length ∧
      (∀ xs, around (⟨d, p, o'⟩ :: ctx') xs = around (⟨d, p, o⟩ :: ctx) xs) ∧
      ∀ q ∉ nodes (⟨d, p, o⟩ :: ctx), h.Same h' q := by
  have hup : h.uplink p = parent ctx := habove.2.1
  have hkeep : rotateUp d p h root = (h, root, parent ctx) → ∃ h' root' o' ctx',
      rotateUp d p h root = (h', root', parent ctx') ∧
      Above h' (⟨d, p, o'⟩ :: ctx') ∧ ctx'.length ≤ ctx.length ∧
      (∀ xs, around (⟨d, p, o'⟩ :: ctx') xs = around (⟨d, p, o⟩ :: ctx) xs) ∧
      ∀ q ∉ nodes (⟨d, p, o⟩ :: ctx), h.Same h' q := fun heq =>
    ⟨h, root, o, ctx, heq, habove, Nat.le_refl _, fun _ => rfl, fun _ _ => ⟨fun _ => rfl, rfl⟩⟩
  cases ctx with
  | nil =>
    apply hkeep
    rw [rotateUp, hup]
    rfl
  | cons s ctx =>
    obtain ⟨e, p₂, o₂⟩ := s
    -- the next node of the path is on the same side: here the rotation is made
    by_cases hd : e = d
    · subst hd
      obtain ⟨h', root', heq, habove', hsame⟩ := rotateUp_rotates habove hnodup root
      refine ⟨h', root', _, ctx, heq, habove', Nat.le_succ _, fun xs => ?_, hsame⟩
      simp only [around_cons, NodeTree.inorder_join, Dir.beside_assoc]
    · apply hkeep
      have hflip : e.flip = d := by
        revert hd
        cases e <;> cases d <;> simp [Dir.flip]
      -- on the other side `p` is not this child of its parent, and nothing is changed
      have hlink : h.link d p₂ ≠ some p := by
        intro hmem
        have hother : Child h e.flip p₂ o₂ := habove.2.2.2.1
        rw [hflip] at hother
        refine (List.nodup_cons.mp hnodup).1 (List.mem_append_right _ ?_)
        exact List.mem_cons_of_mem _ (List.mem_append_left _ (hother.mem hmem))
      rw [rotateUp, hup]
      simp only [parent]
      rw [if_neg hlink]

/-- The lowest node of the path goes on top of a tree. -/
theorem attach_step {h : Links Ptr} {d : Dir} {p : Ptr} {o T : NodeTree Ptr} {ctx : Context Ptr}
    {tp : Option Ptr} (hT : Shape h tp T) (habove : Above h (⟨d, p, o⟩ :: ctx))
    (hTn : T.inorder.Nodup) (hn : (nodes (⟨d, p, o⟩ :: ctx)).Nodup)
    (hdisj : T.inorder.Disjoint (nodes (⟨d, p, o⟩ :: ctx))) :
    Shape (h.attach d p tp) (some p) (.join d T p o) ∧ PointsTo (h.attach d p tp) p ctx ∧
      Above (h.attach d p tp) ctx := by
  obtain ⟨hother, -, hpoints, hrest⟩ := habove
  simp only [nodes, List.cons_append, List.nodup_cons, List.nodup_append', List.mem_append,
    not_or] at hn
  obtain ⟨⟨hpo, hpc⟩, hno, hnc, hoc⟩ := hn
  simp only [nodes, List.cons_append, List.disjoint_right, List.mem_cons, List.mem_append] at hdisj
  have hsame : ∀ q ∈ nodes ctx, h.Same (h.attach d p tp) q := fun q hq =>
    Links.same_attach h d (fun heq => hpc (heq ▸ hq)) fun hx => hdisj (.inr (.inr hq)) (hT.mem hx)
  refine ⟨(shape_join d).mpr ⟨rfl, hT.attach hTn (hdisj (.inl rfl)) d, ?_⟩,
    hpoints.frame hsame, hrest.frame hnc hsame⟩
  exact hother.attach hno (.inl d.flip_ne) hpo fun x hx hxo => hdisj (.inr (.inl hxo)) (hT.mem hx)

/-- One turn of the loop, on the side `d` of the lowest node of the path: `T` is
the tree that grows and `U` the other one. -/
theorem splay_turn {h : Links Ptr} {d : Dir} {p : Ptr} {o T U : NodeTree Ptr} {ctx : Context Ptr}
    {tp uq : Option Ptr} {xs : List Ptr} (hT : Shape h tp T) (hU : Shape h uq U)
    (habove : Above h (⟨d, p, o⟩ :: ctx))
    (hnodup : (around (⟨d, p, o⟩ :: ctx) (d.beside xs T.inorder)).Nodup)
    (hUn : U.inorder.Nodup) (hUxs : ∀ q ∈ U.inorder, q ∈ xs) (root : Option Ptr) :
    ∃ h₁ root' T' ctx', rotateUp d p h root = (h₁, root', parent ctx') ∧
      Shape (h₁.attach d p tp) (some p) T' ∧ Shape (h₁.attach d p tp) uq U ∧
      PointsTo (h₁.attach d p tp) p ctx' ∧ Above (h₁.attach d p tp) ctx' ∧
      ctx'.length ≤ ctx.length ∧ p ∈ T'.inorder ∧
      around ctx' (d.beside xs T'.inorder) = around (⟨d, p, o⟩ :: ctx) (d.beside xs T.inorder) ∧
      ∀ q ∉ around (⟨d, p, o⟩ :: ctx) (d.beside xs T.inorder), h.Same (h₁.attach d p tp) q := by
  have hmem := mem_around (⟨d, p, o⟩ :: ctx)
  obtain ⟨hmid, hn, hdisj⟩ := (nodup_around _ _).mp hnodup
  obtain ⟨-, hTn, hxT⟩ := (Dir.nodup_beside ..).mp hmid
  obtain ⟨h₁, root', o', ctx', hrotate, habove', hlen, horder, hsame⟩ := rotateUp_spec habove hn root
  -- the tree that grows and the other one lie off the path, so the rotation leaves them
  have hT' : ∀ q ∈ T.inorder, q ∉ nodes (⟨d, p, o⟩ :: ctx) := fun q hq =>
    hdisj ((Dir.mem_beside ..).mpr (.inr hq))
  have hU' : ∀ q ∈ U.inorder, q ∉ nodes (⟨d, p, o⟩ :: ctx) := fun q hq =>
    hdisj ((Dir.mem_beside ..).mpr (.inl (hUxs q hq)))
  have hnodup' : (around (⟨d, p, o'⟩ :: ctx') (d.beside xs T.inorder)).Nodup := by
    rw [horder]
    exact hnodup
  obtain ⟨-, hn', hdisj'⟩ := (nodup_around _ _).mp hnodup'
  have hTdisj : T.inorder.Disjoint (nodes (⟨d, p, o'⟩ :: ctx')) := fun q hq =>
    hdisj' ((Dir.mem_beside ..).mpr (.inr hq))
  have hp : p ∈ nodes (⟨d, p, o⟩ :: ctx) := List.mem_cons_self ..
  have hT₁ := hT.same hTn fun q hq => hsame q (hT' q hq)
  obtain ⟨hshape, hpoints, habove''⟩ := attach_step hT₁ habove' hTn hn' hTdisj
  have hattach : ∀ q, q ≠ p → q ∉ T.inorder → h₁.Same (h₁.attach d p tp) q := fun q hq hqT =>
    Links.same_attach h₁ d hq fun hx => hqT (hT.mem hx)
  refine ⟨h₁, root', _, ctx', hrotate, hshape, ?_, hpoints, habove'', hlen,
    (NodeTree.mem_inorder_join ..).mpr (.inl rfl), ?_, ?_⟩
  · refine hU.same hUn fun q hq => (hsame q (hU' q hq)).trans (hattach q ?_ ?_)
    · exact fun heq => hU' q hq (heq ▸ hp)
    · exact hxT (hUxs q hq)
  · rw [← horder, around_cons, NodeTree.inorder_join, Dir.beside_assoc]
  · intro q hq
    rw [hmem, Dir.mem_beside] at hq
    push Not at hq
    exact (hsame q hq.2).trans (hattach q (fun heq => hq.2 (heq ▸ hp)) hq.1.2)

/-! ## The loop

A turn takes one or two nodes off the path. So the number of turns is bounded by the
length of the path, which is at most the number of blocks there are. -/

/-- Between two turns: the tree is the node `n`, the trees left and right of it and the
path above the node dealt with last. The path is a `Context`: its first step is the lowest
node. -/
structure Splaying (h : Links Ptr) (n : Ptr) (left right : Option Ptr) (L R : NodeTree Ptr)
    (prev : Ptr) (ctx : Context Ptr) : Prop where
  /-- what is left of the node so far -/
  left : Shape h left L
  /-- what is right of it -/
  right : Shape h right R
  /-- the path still has a link to `prev`, the node it was last taken from -/
  points : PointsTo h prev ctx
  /-- the path itself, in memory -/
  above : Above h ctx
  /-- `prev` is already in one of the trees; its place on the path is the hole -/
  last : prev ∈ L.inorder ++ n :: R.inorder
  /-- the trees and the path have no node in common -/
  nodup : (around ctx (L.inorder ++ n :: R.inorder)).Nodup

/-- What the loop owes from the links `h`: it ends with two trees, the nodes `xs` are
in them with `n` between, in their order, and no other node is touched. -/
def Splayed (h : Links Ptr) (n : Ptr) (xs : List Ptr)
    (result : Option (Links Ptr × Option Ptr × Option Ptr × Option Ptr)) : Prop :=
  ∃ h' root' left' right' L' R', result = some (h', root', left', right') ∧
    Shape h' left' L' ∧ Shape h' right' R' ∧ L'.inorder ++ n :: R'.inorder = xs ∧
    ∀ q ∉ xs, h.Same h' q

/-- A turn that changes links of the nodes `xs` only leaves to the next ones what
it owes itself. -/
theorem Splayed.after {h h₁ : Links Ptr} {n : Ptr} {xs : List Ptr}
    {result : Option (Links Ptr × Option Ptr × Option Ptr × Option Ptr)}
    (hs : Splayed h₁ n xs result) (hsame : ∀ q ∉ xs, h.Same h₁ q) : Splayed h n xs result := by
  obtain ⟨h', root', left', right', L', R', hresult, hL', hR', horder, hsame'⟩ := hs
  exact ⟨h', root', left', right', L', R', hresult, hL', hR', horder,
    fun q hq => (hsame q hq).trans (hsame' q hq)⟩

/-- What is owed by `turns` turns from any path they are enough for. This is the
hypothesis of the induction on the turns. -/
def TurnsSplay (n : Ptr) (turns : ℕ) : Prop :=
  ∀ {ctx : Context Ptr} {h : Links Ptr} {left right : Option Ptr} {L R : NodeTree Ptr}
    {prev : Ptr} (root : Option Ptr), ctx.length ≤ turns → Splaying h n left right L R prev ctx →
    Splayed h n (around ctx (L.inorder ++ n :: R.inorder))
      (splayLoop turns h root left right prev (parent ctx))

section

variable {h : Links Ptr} {n : Ptr} {left right : Option Ptr} {L R : NodeTree Ptr} {prev : Ptr}

/-- Nothing is above the node dealt with last: the loop is done. -/
theorem Splaying.done (hs : Splaying h n left right L R prev []) (turns : ℕ) (root : Option Ptr) :
    Splayed h n (around [] (L.inorder ++ n :: R.inorder))
      (splayLoop turns h root left right prev none) :=
  ⟨h, root, left, right, L, R, by cases turns <;> rfl, hs.left, hs.right,
    (List.append_nil _).symm, fun _ _ => ⟨fun _ => rfl, rfl⟩⟩

/-- The parent is right of the node: it goes to the tree on the right. -/
theorem Splaying.turnLeft {p : Ptr} {o : NodeTree Ptr} {ctx : Context Ptr} {turns : ℕ}
    (hs : Splaying h n left right L R prev (⟨.left, p, o⟩ :: ctx)) (ih : TurnsSplay n turns)
    (hlen : ctx.length ≤ turns) (root : Option Ptr) :
    Splayed h n (around (⟨.left, p, o⟩ :: ctx) (L.inorder ++ n :: R.inorder))
      (splayLoop (turns + 1) h root left right prev (some p)) := by
  have hlink : h.link .left p = some prev := hs.points
  obtain ⟨hmid, -, -⟩ := (nodup_around _ _).mp hs.nodup
  rw [List.nodup_append', List.nodup_cons] at hmid
  have hbeside : ∀ ys, Dir.left.beside (L.inorder ++ [n]) ys = L.inorder ++ n :: ys := by
    simp [Dir.beside]
  obtain ⟨h₁, root', T', ctx', hrotate, hT', hU', hpoints, habove, hlen₁, hpT, horder, hsame⟩ :=
    splay_turn hs.right hs.left hs.above (by rw [hbeside]; exact hs.nodup) hmid.1
      (fun q hq => List.mem_append_left _ hq) root
  rw [hbeside, hbeside] at horder
  rw [hbeside] at hsame
  have hnext : Splaying (h₁.attach .left p right) n left (some p) L T' p ctx' :=
    ⟨hU', hT', hpoints, habove, List.mem_append_right _ (List.mem_cons_of_mem _ hpT),
      by rw [horder]; exact hs.nodup⟩
  rw [splayLoop, if_pos hlink, hrotate, ← horder]
  exact (ih root' (Nat.le_trans hlen₁ hlen) hnext).after (by rw [horder]; exact hsame)

/-- The parent is left of the node: it goes to the tree on the left. -/
theorem Splaying.turnRight {p : Ptr} {o : NodeTree Ptr} {ctx : Context Ptr} {turns : ℕ}
    (hs : Splaying h n left right L R prev (⟨.right, p, o⟩ :: ctx)) (ih : TurnsSplay n turns)
    (hlen : ctx.length ≤ turns) (root : Option Ptr) :
    Splayed h n (around (⟨.right, p, o⟩ :: ctx) (L.inorder ++ n :: R.inorder))
      (splayLoop (turns + 1) h root left right prev (some p)) := by
  obtain ⟨hmid, -, hdisj⟩ := (nodup_around _ _).mp hs.nodup
  rw [List.nodup_append', List.nodup_cons] at hmid
  have hbeside : ∀ ys, Dir.right.beside (n :: R.inorder) ys = ys ++ n :: R.inorder :=
    fun _ => rfl
  have hother : Child h .left p o := hs.above.1
  -- the left link of the parent does not lead here
  have hne : h.link .left p ≠ some prev := fun hmem => hdisj hs.last
    (List.mem_cons_of_mem _ (List.mem_append_left _ (hother.mem hmem)))
  obtain ⟨h₁, root', T', ctx', hrotate, hT', hU', hpoints, habove, hlen₁, hpT, horder, hsame⟩ :=
    splay_turn hs.left hs.right hs.above (by rw [hbeside]; exact hs.nodup) hmid.2.1.2
      (fun q hq => List.mem_cons_of_mem _ hq) root
  rw [hbeside, hbeside] at horder
  rw [hbeside] at hsame
  have hnext : Splaying (h₁.attach .right p left) n (some p) right T' R p ctx' :=
    ⟨hT', hU', hpoints, habove, List.mem_append_left _ hpT, by rw [horder]; exact hs.nodup⟩
  rw [splayLoop, if_neg hne, hrotate, ← horder]
  exact (ih root' (Nat.le_trans hlen₁ hlen) hnext).after (by rw [horder]; exact hsame)

end

/-- The loop ends with the two trees, and all nodes in the same order. The
induction is on the turns; a turn takes at least one step off the path. -/
theorem splayLoop_spec (n : Ptr) (turns : ℕ) : TurnsSplay n turns := by
  induction turns with
  | zero =>
    intro ctx h left right L R prev root hlen hs
    obtain rfl := List.length_eq_zero_iff.mp (Nat.le_zero.mp hlen)
    exact hs.done 0 root
  | succ turns ih =>
    intro ctx h left right L R prev root hlen hs
    cases ctx with
    | nil => exact hs.done (turns + 1) root
    | cons s ctx =>
      obtain ⟨d, p, o⟩ := s
      have hlen' : ctx.length ≤ turns := Nat.le_of_succ_le_succ hlen
      cases d with
      | left => exact hs.turnLeft ih hlen' root
      | right => exact hs.turnRight ih hlen' root

/-! ## The whole operation

`sp_lookup` and `sp_delete` see the operation through one statement: the tree has `n` at
its root and the same nodes in the same order. -/

/-- The tree of a handle: its shape, and no node above its root. This is what holds of
every tree between two operations. -/
structure IsTree (h : Links Ptr) (root : Option Ptr) (t : NodeTree Ptr) : Prop where
  /-- the nodes reached from the root -/
  shape : Shape h root t
  /-- the walk up ends at the root -/
  top : ∀ c, root = some c → h.uplink c = none
  /-- no node is reached twice -/
  nodup : t.inorder.Nodup

/-- Stores to other nodes leave a tree alone. -/
theorem IsTree.same {h h' : Links Ptr} {root : Option Ptr} {t : NodeTree Ptr} (ht : IsTree h root t)
    (hsame : ∀ q ∈ t.inorder, h.Same h' q) : IsTree h' root t where
  shape := ht.shape.same ht.nodup hsame
  top c hc := (hsame c (ht.shape.mem hc)).2.trans (ht.top c hc)
  nodup := ht.nodup

/-- Hanging two trees below a node. -/
theorem shape_root {h : Links Ptr} {n : Ptr} {left right : Option Ptr} {L R : NodeTree Ptr}
    (hL : Shape h left L) (hR : Shape h right R) (hnodup : (L.inorder ++ n :: R.inorder).Nodup) :
    Shape ((h.attach .left n left).attach .right n right) (some n) (.node L n R) := by
  obtain ⟨hnL, hnR, hLn, hRn, hdisj⟩ := (NodeTree.nodup_join .left L n R).mp hnodup
  have hR₁ : Shape (h.attach .left n left) right R := hR.same hRn fun q hq =>
    Links.same_attach h .left (fun heq => hnR (heq ▸ hq)) fun hx => hdisj (hL.mem hx) hq
  refine ⟨rfl, ?_, hR₁.attach hRn hnR .right⟩
  exact (hL.attach hLn hnL .left).attach hLn (.inl (by decide)) hnL fun x hx hxL =>
    hdisj hxL (hR₁.mem hx)

/-- A tree whose root has nothing above it any more. -/
theorem isTree_setUp {h : Links Ptr} {n : Ptr} {t : NodeTree Ptr} (hs : Shape h (some n) t)
    (hnodup : t.inorder.Nodup) : IsTree (h.setUp n none) (some n) t where
  shape := hs.frame hnodup (fun _ _ _ => rfl) fun p _ hp => by
    rw [Links.setUp_uplink, if_neg fun heq => hp (congrArg some heq.symm)]
  top c hc := if_pos (Option.some.inj hc).symm
  nodup := hnodup

/-- `_splay` makes `n` the root of a tree with the same nodes in the same order,
and touches no other node. -/
theorem splay_spec {q : Sptree} {m : Memory} {t : NodeTree Ptr} {n : Ptr}
    (ht : IsTree m.links q.root t) (hn : n ∈ t.inorder) (hlen : t.inorder.length ≤ m.brk) :
    ∃ h t', splay n q m = some ({ q with root := some n }, { m with links := h }) ∧
      IsTree h (some n) t' ∧ t'.inorder = t.inorder ∧ ∀ p ∉ t.inorder, m.links.Same h p := by
  obtain ⟨l, r, ctx, rfl⟩ := exists_plug hn
  obtain ⟨hl, hr, hup, hpoints, habove⟩ := shape_plug ht.top ctx .left l n r ht.shape
  have horder := inorder_plug ctx (.node l n r)
  have hctx := length_le_plug ctx (.node l n r)
  have hstart : Splaying m.links n (m.links.link .left n) (m.links.link .right n) l r n ctx :=
    ⟨hl.1, hr.1, hpoints, habove, List.mem_append_right _ (List.mem_cons_self ..), by
      rw [← NodeTree.inorder_node, ← horder]
      exact ht.nodup⟩
  obtain ⟨h, root, left, right, L, R, hloop, hL, hR, hsplit, hsame⟩ :=
    splayLoop_spec n m.brk q.root
      (Nat.le_trans (Nat.le_add_right _ _) (Nat.le_trans hctx hlen)) hstart
  rw [NodeTree.inorder_node] at horder
  rw [← horder] at hsplit hsame
  have hnodup : (L.inorder ++ n :: R.inorder).Nodup := by
    rw [hsplit]
    exact ht.nodup
  refine ⟨_, _, ?_, isTree_setUp (shape_root hL hR hnodup) hnodup, hsplit, fun p hp => (hsame p hp).trans ?_⟩
  · rw [splay, hup, hloop]
    cases left <;> cases right <;> rfl
  · have hp' : p ∉ L.inorder ++ n :: R.inorder := by
      rw [hsplit]
      exact hp
    simp only [List.mem_append, List.mem_cons, not_or] at hp'
    exact ((Links.same_attach h .left hp'.2.1 fun hx => hp'.1 (hL.mem hx)).trans
      (Links.same_attach _ .right hp'.2.1 fun hx => hp'.2.2 (hR.mem hx))).trans
      (Links.same_setUp _ _ hp'.2.1)

end Gnuais
