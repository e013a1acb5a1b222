import CosmicArchitect.Spatial3D.LinkGrid
import CosmicArchitect.Spatial3D.TaskStates

/-!
# Octree and neighbour links

Every load joins a node to the grid and every destruction drops it, so that in all runs the
links are mutual, lead to the node stored at the corresponding position and connect any two
adjacent nodes that finished loading. Masks and parent indices repeat the pointers.
-/

namespace CosmicArchitect.Spatial3D
open Library Compass

variable {D : Type} {t : TypeData D} {G : Guard} {w w' : World D} {s it : Nat} {a : Nat}
  {pos : Vector3i} {c : NodeCoord} {n : Node D}

/-! ### Masks and parent indices -/

structure Node.Tidy (n : Node D) : Prop where
  children : ∀ i, i < 8 → n.childrenMask.getLsbD i = (n.children i).isSome
  neighbours : ∀ i, i < 6 → n.neighbourMask.getLsbD i = (n.neighbours i).isSome
  parent : n.parentIndex =
    if n.parent.isSome then getNodeParentIndex n.position else kNodeNoParent

theorem getLsbD_setBit (m : BitVec 8) {i j : Nat} (hj : j < 8) :
    (m ||| 1#8 <<< i).getLsbD j = (m.getLsbD j || decide (j = i)) := by
  have hbit : (1#8 <<< i).getLsbD j = decide (j = i) := by
    rw [BitVec.getLsbD_shiftLeft, BitVec.getLsbD_one]
    by_cases h : j = i
    · subst h
      simp [hj]
    · have hne : ¬ (i ≤ j ∧ j - i = 0) := by omega
      simp only [h, decide_false]
      grind
  rw [BitVec.getLsbD_or, hbit]

theorem getLsbD_clearBit (m : BitVec 8) {i j : Nat} (hj : j < 8) :
    (m &&& ~~~(1#8 <<< i)).getLsbD j = (m.getLsbD j && decide (j ≠ i)) := by
  have hbit : (1#8 <<< i).getLsbD j = decide (j = i) := by
    have h := getLsbD_setBit 0#8 (i := i) hj
    simpa using h
  rw [BitVec.getLsbD_and, BitVec.getLsbD_not, hbit]
  by_cases h : j = i <;> simp [h, hj]

namespace Node.Tidy

theorem setNeighbour (h : n.Tidy) {i : Nat} (b : Nat) : (n.setNeighbour i b).Tidy := by
  refine ⟨h.children, fun j hj => ?_, h.parent⟩
  show (n.neighbourMask ||| 1#8 <<< i).getLsbD j = _
  rw [getLsbD_setBit n.neighbourMask (by omega), h.neighbours j hj]
  by_cases hji : j = i <;> simp [Node.setNeighbour, Function.update, hji]

theorem clearNeighbour (h : n.Tidy) (i : Nat) : (n.clearNeighbour i).Tidy := by
  refine ⟨h.children, fun j hj => ?_, h.parent⟩
  show (n.neighbourMask &&& ~~~(1#8 <<< i)).getLsbD j = _
  rw [getLsbD_clearBit n.neighbourMask (by omega), h.neighbours j hj]
  by_cases hji : j = i <;> simp [Node.clearNeighbour, Function.update, hji]

theorem setChild (h : n.Tidy) {i : Nat} (b : Nat) : (n.setChild i b).Tidy := by
  refine ⟨fun j hj => ?_, h.neighbours, h.parent⟩
  show (n.childrenMask ||| 1#8 <<< i).getLsbD j = _
  rw [getLsbD_setBit n.childrenMask hj, h.children j hj]
  by_cases hji : j = i <;> simp [Node.setChild, Function.update, hji]

theorem clearChild (h : n.Tidy) (i : Nat) : (n.clearChild i).Tidy := by
  refine ⟨fun j hj => ?_, h.neighbours, h.parent⟩
  show (n.childrenMask &&& ~~~(1#8 <<< i)).getLsbD j = _
  rw [getLsbD_clearBit n.childrenMask hj, h.children j hj]
  by_cases hji : j = i <;> simp [Node.clearChild, Function.update, hji]

theorem setParent (h : n.Tidy) (b : Nat) {i : Nat} (hi : i = getNodeParentIndex n.position) :
    (n.setParent b i).Tidy :=
  ⟨h.children, h.neighbours, hi⟩

theorem clearParent (h : n.Tidy) : n.clearParent.Tidy := ⟨h.children, h.neighbours, rfl⟩

end Node.Tidy

/-- All masks and parent indices of a world are tidy. -/
def World.Tidy (w : World D) : Prop := ∀ a n, w.heap a = some n → n.Tidy

theorem World.Tidy.modify (h : w.Tidy) {f : Node D → Node D}
    (hf : ∀ n, w.heap a = some n → n.Tidy → (f n).Tidy) : (w.modify a f).Tidy := by
  intro b m hm
  rw [World.heap_modify] at hm
  by_cases hb : b = a
  · subst hb
    rw [Function.update_self] at hm
    obtain ⟨n, hn, rfl⟩ := Option.map_eq_some_iff.mp hm
    exact hf n hn (h b n hn)
  · rw [Function.update_of_ne hb] at hm
    exact h b m hm

theorem tidy_linkNeighbour (h : w.Tidy) (i : Nat) : (linkNeighbour s a pos w i).Tidy := by
  unfold linkNeighbour
  split
  · next b _ =>
    have ha : (w.modify a (·.setNeighbour i b)).Tidy := h.modify fun _ _ hn => hn.setNeighbour b
    exact ha.modify fun _ _ hm => hm.setNeighbour a
  · exact h

theorem tidy_linkParent (hw : Grid t w) (ha : w.stands a ⟨pos, s⟩) (h : w.Tidy) :
    (linkParent s a pos w).Tidy := by
  unfold linkParent
  split
  · next b _ =>
    obtain ⟨n, hat⟩ := at_of_stands ha
    have hset : (w.modify a (·.setParent b (getNodeParentIndex pos))).Tidy := by
      refine h.modify fun m hm hmt => hmt.setParent b ?_
      cases hat.heap.symm.trans hm
      rw [hw.position hat]
    exact hset.modify fun _ _ hm => hm.setChild a
  · exact h

theorem tidy_linkChild (hw : Grid t w) (ha : w.stands a ⟨pos, s⟩) (h : w.Tidy) (hs : 0 < s)
    {i : Nat} (hi : i < 8) : (linkChild s a pos w i).Tidy := by
  unfold linkChild
  split
  · next b hfind =>
    have hset : (w.modify a (·.setChild i b)).Tidy := h.modify fun _ _ hn => hn.setChild b
    refine hset.modify fun m hm hmt => hmt.setParent a ?_
    have hd : destination ⟨pos, s⟩ (.child i) = some ⟨pos.shl 1 + nodeChildOffsets i, s - 1⟩ := by
      simp only [destination, if_pos (And.intro hi hs)]
    have hb : w.stands b ⟨pos.shl 1 + nodeChildOffsets i, s - 1⟩ :=
      (occupant_iff hw _ b).mp (by simp only [World.occupant, hfind, Option.join_some])
    obtain ⟨l, hat⟩ := at_of_stands hb
    rw [World.heap_modify, Function.update_of_ne (Ne.symm (stands_ne hw ha hd hb))] at hm
    cases hat.heap.symm.trans hm
    rw [hw.position hat, parentIndex_of_child pos hi]
  · exact h

theorem tidy_loop {ι : Type} {g : World D → ι → World D} (hcore : ∀ w i, (g w i).core = w.core)
    (l : List ι) (hg : ∀ i ∈ l, ∀ w, Grid t w → w.stands a c → w.Tidy → (g w i).Tidy) :
    ∀ w, Grid t w → w.stands a c → w.Tidy → (l.foldl g w).Tidy := by
  induction l with
  | nil =>
    intro w _ _ h
    exact h
  | cons i l ih =>
    intro w hw ha h
    have hi := hg i (List.mem_cons_self ..) w hw ha h
    exact ih (fun j hj => hg j (List.mem_cons_of_mem _ hj)) (g w i)
      (grid_of_core hw (hcore w i)) (by rw [stands_of_core (hcore w i)]; exact ha) hi

theorem tidy_linkNode (hw : Grid t w) (ha : w.stands a ⟨pos, s⟩) (h : w.Tidy) :
    (linkNode t.maxScale w a s pos).Tidy := by
  have hcn := core_foldl (core_linkNeighbour (D := D) s a pos) (List.range 6) w
  have hn : ((List.range 6).foldl (linkNeighbour s a pos) w).Tidy :=
    tidy_loop (core_linkNeighbour s a pos) (List.range 6)
      (fun i _ _ _ _ h => tidy_linkNeighbour h i) w hw ha h
  generalize hw1 : (List.range 6).foldl (linkNeighbour s a pos) w = w1 at hcn hn
  have hw1p := grid_of_core hw hcn
  have ha1 : w1.stands a ⟨pos, s⟩ := by rw [stands_of_core hcn]; exact ha
  have hp : ∃ w2, (if s + 1 < t.maxScale then linkParent s a pos w1 else w1) = w2 ∧
      w2.core = w1.core ∧ w2.Tidy := by
    by_cases hs : s + 1 < t.maxScale
    · exact ⟨_, if_pos hs, core_linkParent s a pos w1, tidy_linkParent hw1p ha1 hn⟩
    · exact ⟨w1, if_neg hs, rfl, hn⟩
  obtain ⟨w2, hw2, hcp, htp⟩ := hp
  have hw2p := grid_of_core hw1p hcp
  have ha2 : w2.stands a ⟨pos, s⟩ := by rw [stands_of_core hcp]; exact ha1
  simp only [linkNode, hw1, hw2]
  by_cases hs : 0 < s
  · rw [if_pos hs]
    exact tidy_loop (core_linkChild s a pos) (List.range 8)
      (fun i hi w hw ha h => tidy_linkChild hw ha h hs (List.mem_range.mp hi)) w2 hw2p ha2 htp
  · rw [if_neg hs]
    exact htp

/-! ### `UnlinkNode` drops in all directions -/

theorem links_clear {b : Nat} {g : Node D → Node D} {d : Dir}
    (hg : ∀ m e, (g m).link e = if e = d then none else m.link e) :
    (w.modify b g).links = fun x e => if x = b ∧ e = d then none else w.links x e := by
  funext x e
  cases hb : w.heap b with
  | some m =>
    rw [links_modify hb, hg]
    by_cases hx : x = b
    · subst hx
      rw [if_pos rfl, links_of_heap hb]
      by_cases he : e = d
      · rw [if_pos he, if_pos ⟨rfl, he⟩]
      · rw [if_neg he, if_neg fun hc => he hc.2]
    · rw [if_neg hx, if_neg fun hc => hx hc.1]
  | none =>
    have hsame : (w.modify b g).links x e = w.links x e := by
      simp only [World.links, World.heap_modify, hb, Option.map_none]
      by_cases hx : x = b
      · subst hx
        rw [Function.update_self, hb]
      · rw [Function.update_of_ne hx]
    rw [hsame]
    by_cases hx : x = b
    · subst hx
      simp only [World.links, hb, Option.bind_none, ite_self]
    · rw [if_neg fun hc => hx hc.1]

theorem link_clearNeighbour (m : Node D) (i : Nat) (e : Dir) :
    (m.clearNeighbour i).link e = if e = .neighbour i then none else m.link e := by
  cases e with
  | neighbour j => by_cases h : j = i <;> simp [Node.link, Node.clearNeighbour, Function.update, h]
  | child j => simp [Node.link, Node.clearNeighbour]
  | parent => simp [Node.link, Node.clearNeighbour]

theorem link_clearChild (m : Node D) (i : Nat) (e : Dir) :
    (m.clearChild i).link e = if e = .child i then none else m.link e := by
  cases e with
  | neighbour j => simp [Node.link, Node.clearChild]
  | child j => by_cases h : j = i <;> simp [Node.link, Node.clearChild, Function.update, h]
  | parent => simp [Node.link, Node.clearChild]

theorem link_clearParent (m : Node D) (e : Dir) :
    m.clearParent.link e = if e = .parent then none else m.link e := by
  cases e <;> simp [Node.link, Node.clearParent]

theorem links_unlinkNeighbour (a : Nat) (c : NodeCoord) (w : World D) (i : Nat) :
    (unlinkNeighbour a w i).links = compass.dropStep a c w.links (.neighbour i) := by
  unfold unlinkNeighbour Compass.dropStep
  have hrow : w.links a (.neighbour i) = (w.heap a).bind (·.neighbours i) := rfl
  rw [hrow]
  split
  · next b hb =>
    rw [hb, links_clear fun m e => link_clearNeighbour m (5 - i) e]
    rfl
  · next hb => rw [hb]

theorem links_unlinkChild (a : Nat) (c : NodeCoord) (w : World D) (i : Nat) :
    (unlinkChild a w i).links = compass.dropStep a c w.links (.child i) := by
  unfold unlinkChild Compass.dropStep
  have hrow : w.links a (.child i) = (w.heap a).bind (·.children i) := rfl
  rw [hrow]
  split
  · next b hb =>
    rw [hb, links_clear fun m e => link_clearParent m e]
    rfl
  · next hb => rw [hb]

theorem links_unlinkParent (hw : Grid t w) (ha : w.stands a c) (h : w.Tidy) :
    (unlinkParent a w).links = compass.dropStep a c w.links .parent := by
  obtain ⟨n, hat⟩ := at_of_stands ha
  have hrow : w.links a .parent = n.parent := links_of_heap hat.heap .parent
  unfold Compass.dropStep unlinkParent
  rw [hrow]
  simp only [hat.heap]
  cases hb : n.parent with
  | none => rfl
  | some b =>
    have hi : n.parentIndex = getNodeParentIndex c.position := by
      have hp := (h a n hat.heap).parent
      rw [hb, Option.isSome_some, if_pos rfl, hw.position hat] at hp
      exact hp
    simp only [hi]
    rw [links_clear fun m e => link_clearChild m _ e]
    rfl

theorem tidy_unlinkNeighbour (a : Nat) (i : Nat) (h : w.Tidy) : (unlinkNeighbour a w i).Tidy := by
  unfold unlinkNeighbour
  split
  · exact h.modify fun _ _ hm => hm.clearNeighbour _
  · exact h

theorem tidy_unlinkParent (a : Nat) (h : w.Tidy) : (unlinkParent a w).Tidy := by
  unfold unlinkParent
  split
  · split
    · exact h.modify fun _ _ hm => hm.clearChild _
    · exact h
  · exact h

theorem tidy_unlinkChild (a : Nat) (i : Nat) (h : w.Tidy) : (unlinkChild a w i).Tidy := by
  unfold unlinkChild
  split
  · exact h.modify fun _ _ hm => hm.clearParent
  · exact h

theorem tidy_foldl {ι : Type} {g : World D → ι → World D} (hg : ∀ w i, w.Tidy → (g w i).Tidy)
    (l : List ι) : ∀ w : World D, w.Tidy → (l.foldl g w).Tidy := by
  induction l with
  | nil =>
    intro w h
    exact h
  | cons i l ih =>
    intro w h
    exact ih (g w i) (hg w i h)

theorem tidy_unlinkNode (h : w.Tidy) (maxScale s a : Nat) : (unlinkNode maxScale w a s).Tidy := by
  have hn := tidy_foldl (fun w i h => tidy_unlinkNeighbour (w := w) a i h) (List.range 6) w h
  have hp : (if s + 1 < maxScale then unlinkParent a ((List.range 6).foldl (unlinkNeighbour a) w)
      else (List.range 6).foldl (unlinkNeighbour a) w).Tidy := by
    split
    · exact tidy_unlinkParent a hn
    · exact hn
  simp only [unlinkNode]
  split
  · exact tidy_foldl (fun w i h => tidy_unlinkChild (w := w) a i h) (List.range 8) _ hp
  · exact hp

theorem links_dropLoop {ι : Type} {g : World D → ι → World D} {dir : ι → Dir}
    (hg : ∀ w i, (g w i).links = compass.dropStep a c w.links (dir i)) (l : List ι) :
    ∀ w, (l.foldl g w).links = (l.map dir).foldl (compass.dropStep a c) w.links := by
  induction l with
  | nil =>
    intro w
    rfl
  | cons i l ih =>
    intro w
    rw [List.foldl_cons, List.map_cons, List.foldl_cons, ih, hg]

/-- After `UnlinkNode` only the links of the node itself still involve it. -/
theorem unlinkNode_dropped (hw : Grid t w) (ha : w.stands a ⟨pos, s⟩) (h : w.Tidy)
    (hc : compass.Consistent (site hw) w.links) :
    ∃ all, Dropped compass (site hw) a ⟨pos, s⟩ w.links (unlinkNode t.maxScale w a s).links all ∧
      ∀ d, w.links a d ≠ none → d ∈ all := by
  have ha' : (site hw).stands a ⟨pos, s⟩ := ha
  obtain ⟨alln, hdn, hmn⟩ := drop_all hc ha' neighbourDirs (dropped_refl w.links)
  have hn : ((List.range 6).foldl (unlinkNeighbour a) w).links =
      neighbourDirs.foldl (compass.dropStep a ⟨pos, s⟩) w.links :=
    links_dropLoop (fun w i => links_unlinkNeighbour a ⟨pos, s⟩ w i) (List.range 6) w
  have hcn := core_foldl (core_unlinkNeighbour (D := D) a) (List.range 6) w
  have htn := tidy_foldl (fun w i h => tidy_unlinkNeighbour (w := w) a i h) (List.range 6) w h
  rw [← hn] at hdn
  generalize hw1 : (List.range 6).foldl (unlinkNeighbour a) w = w1 at hdn hcn htn
  have hw1p := grid_of_core hw hcn
  have ha1 : w1.stands a ⟨pos, s⟩ := by rw [stands_of_core hcn]; exact ha
  -- the direction of the parent is done, or there is no parent
  have hp : ∃ w2 allp, (if s + 1 < t.maxScale then unlinkParent a w1 else w1) = w2 ∧
      Dropped compass (site hw) a ⟨pos, s⟩ w.links w2.links allp ∧ (∀ d ∈ alln, d ∈ allp) ∧
      (w.links a .parent ≠ none → .parent ∈ allp) := by
    by_cases hs : s + 1 < t.maxScale
    · refine ⟨_, .parent :: alln, if_pos hs, ?_, fun d hd => List.mem_cons_of_mem _ hd,
        fun _ => List.mem_cons_self ..⟩
      rw [links_unlinkParent hw1p ha1 htn]
      exact dropped_step hc ha' hdn .parent
    · refine ⟨w1, alln, if_neg hs, hdn, fun d hd => hd, fun hne => ?_⟩
      obtain ⟨b, hb⟩ := Option.ne_none_iff_exists'.mp hne
      obtain ⟨p, q, hap, hq, hbq⟩ := hc.aim hb
      cases (site hw).unique hap ha'
      cases hq
      obtain ⟨m, hat⟩ := at_of_stands hbq
      exact absurd (hw.live hat.find).1 hs
  obtain ⟨w2, allp, hw2, hdp, hmp, hparent⟩ := hp
  simp only [unlinkNode, hw1, hw2]
  -- so are the children
  have hchildren : ∃ all, Dropped compass (site hw) a ⟨pos, s⟩ w.links
      (if 0 < s then (List.range 8).foldl (unlinkChild a) w2 else w2).links all ∧
      (∀ d ∈ allp, d ∈ all) ∧ ∀ i, w.links a (.child i) ≠ none → .child i ∈ all := by
    have hbound : ∀ i, w.links a (.child i) ≠ none → i < 8 ∧ 0 < s := by
      intro i hne
      obtain ⟨b, hb⟩ := Option.ne_none_iff_exists'.mp hne
      obtain ⟨p, q, hap, hq, -⟩ := hc.aim hb
      cases (site hw).unique hap ha'
      have hq' : destination ⟨pos, s⟩ (.child i) = some q := hq
      by_contra hno
      simp only [destination, if_neg hno] at hq'
      cases hq'
    by_cases hs : 0 < s
    · obtain ⟨all, hd, hm⟩ := drop_all hc ha' childDirs hdp
      refine ⟨all, ?_, fun d hd => hm d (Or.inr hd), fun i hne => hm _ (Or.inl ?_)⟩
      · rw [if_pos hs, links_dropLoop (fun w i => links_unlinkChild a ⟨pos, s⟩ w i)]
        exact hd
      · exact List.mem_map_of_mem (List.mem_range.mpr (hbound i hne).1)
    · refine ⟨allp, ?_, fun d hd => hd, fun i hne => absurd (hbound i hne).2 hs⟩
      rw [if_neg hs]
      exact hdp
  obtain ⟨all, hd, hm, hmc⟩ := hchildren
  refine ⟨all, hd, fun d hne => ?_⟩
  cases d with
  | neighbour i =>
    refine hm _ (hmp _ (hmn _ (Or.inl ?_)))
    obtain ⟨b, hb⟩ := Option.ne_none_iff_exists'.mp hne
    obtain ⟨p, q, -, hq, -⟩ := hc.aim hb
    have hq' : destination p (.neighbour i) = some q := hq
    have hi : i < 6 := by
      by_contra hno
      simp only [destination, if_neg hno] at hq'
      cases hq'
    exact List.mem_map_of_mem (List.mem_range.mpr hi)
  | parent => exact hm _ (hparent hne)
  | child i => exact hmc i hne

/-! ### Effects keep the links -/

/-- The node is stored and no longer Loading. -/
def World.joined (w : World D) (a : Nat) (c : NodeCoord) : Prop :=
  ∃ k, w.cell c = some k ∧ k.addr = a ∧ k.state ≠ .loading

theorem stands_of_joined (h : w.joined a c) : w.stands a c := by
  obtain ⟨k, hk, ha, -⟩ := h
  exact ⟨k, hk, ha⟩

structure Linked (t : TypeData D) (w : World D) : Prop where
  placed : Placed t w
  consistent : compass.Consistent (site placed.grid) w.links
  complete : ∀ {x y p q d}, w.joined x p → w.joined y q → destination p d = some q →
    w.links x d = some y
  tidy : w.Tidy

theorem linked_keep (h : Linked t w) (hw' : Placed t w') (hstands : w'.stands = w.stands)
    (hjoined : ∀ x p, w'.joined x p → w.joined x p) (hlinks : w'.links = w.links)
    (htidy : w'.Tidy) : Linked t w' where
  placed := hw'
  consistent := by
    have hsite : site hw'.grid = site h.placed.grid := Site.ext hstands
    rw [hsite, hlinks]
    exact h.consistent
  complete hx hy hd := by
    rw [hlinks]
    exact h.complete (hjoined _ _ hx) (hjoined _ _ hy) hd
  tidy := htidy

theorem stands_keep (hw : Placed t w) (hat : w.At s pos a n) {f : Node D → Node D}
    (hcell : w'.cell = (w.modify a f).cell) : w'.stands = w.stands := by
  have hval : w'.cell = Function.update w.cell ⟨pos, s⟩ (some ((f n).cell a)) :=
    hcell.trans (cell_modify hw hat f)
  funext x c
  simp only [World.stands, hval]
  by_cases hc : c = ⟨pos, s⟩
  · subst hc
    rw [Function.update_self, cell_of_at hat]
    simp [Node.cell]
  · rw [Function.update_of_ne hc]

theorem links_keep (hat : w.At s pos a n) {f : Node D → Node D}
    (hheap : w'.heap = (w.modify a f).heap) (hlink : (f n).link = n.link) : w'.links = w.links := by
  have hlinks : w'.links = (w.modify a f).links := by
    funext x e
    simp only [World.links, hheap]
  funext x e
  rw [hlinks, links_modify hat.heap]
  by_cases hx : x = a
  · subst hx
    rw [if_pos rfl, hlink, links_of_heap hat.heap]
  · rw [if_neg hx]

theorem linked_modify (h : Linked t w) (hw' : Placed t w') (hat : w.At s pos a n)
    {f : Node D → Node D} (hcell : w'.cell = (w.modify a f).cell)
    (hheap : w'.heap = (w.modify a f).heap) (hlink : (f n).link = n.link)
    (htidy : n.Tidy → (f n).Tidy) (hst : (f n).state ≠ .loading → n.state ≠ .loading) :
    Linked t w' := by
  have hval : w'.cell = Function.update w.cell ⟨pos, s⟩ (some ((f n).cell a)) :=
    hcell.trans (cell_modify h.placed hat f)
  refine linked_keep h hw' (stands_keep h.placed hat hcell) ?_ (links_keep hat hheap hlink) ?_
  · intro x p hx
    obtain ⟨k, hk, rfl, hkst⟩ := hx
    rw [hval] at hk
    by_cases hp : p = ⟨pos, s⟩
    · subst hp
      rw [Function.update_self] at hk
      cases hk
      exact ⟨n.cell a, cell_of_at hat, rfl, hst hkst⟩
    · rw [Function.update_of_ne hp] at hk
      exact ⟨k, hk, rfl, hkst⟩
  · have ht : (w.modify a f).Tidy := h.tidy.modify fun m hm hmt => by
      cases hat.heap.symm.trans hm
      exact htidy hmt
    intro b m hm
    rw [hheap] at hm
    exact ht b m hm

theorem links_create (now : Int) (ha : w.heap a = none) :
    (w.create t s pos now a).links = w.links := by
  funext x e
  by_cases hx : x = a
  · subst hx
    simp only [World.links, World.create, World.heap_setScale, Function.update_self, ha,
      Option.bind_some, Option.bind_none]
    cases e <;> rfl
  · simp only [World.links, World.create, World.heap_setScale, Function.update_of_ne hx]

theorem linked_create (h : Linked t w) (now : Int) (hs : s < t.maxScale)
    (hfind : w.find s pos = none) (ha : w.heap a = none) : Linked t (w.create t s pos now a) := by
  have hcell := cell_create h.placed now hfind ha
  have hvacant : w.cell ⟨pos, s⟩ = none := by
    simp only [World.cell, hfind]
    rfl
  have hlinks : (w.create t s pos now a).links = w.links := links_create now ha
  have hw' := placed_create h.placed now hs hfind ha
  refine ⟨hw', ?_, ?_, ?_⟩
  · rw [hlinks]
    refine h.consistent.mono ?_
    intro x p hx
    obtain ⟨k, hk, hka⟩ := hx
    refine ⟨k, ?_, hka⟩
    have hp : p ≠ ⟨pos, s⟩ := by
      rintro rfl
      rw [hvacant] at hk
      cases hk
    rw [hcell, Function.update_of_ne hp]
    exact hk
  · have hback : ∀ {x p}, (w.create t s pos now a).joined x p → w.joined x p := by
      intro x p hx
      obtain ⟨k, hk, hka, hst⟩ := hx
      rw [hcell] at hk
      by_cases hp : p = ⟨pos, s⟩
      · subst hp
        rw [Function.update_self] at hk
        cases hk
        exact absurd rfl hst
      · rw [Function.update_of_ne hp] at hk
        exact ⟨k, hk, hka, hst⟩
    intro x y p q d hx hy hd
    rw [hlinks]
    exact h.complete (hback hx) (hback hy) hd
  · intro b m hm
    simp only [World.create, World.heap_setScale] at hm
    by_cases hb : b = a
    · subst hb
      rw [Function.update_self] at hm
      cases hm
      exact ⟨fun i _ => by simp [newNode], fun i _ => by simp [newNode], rfl⟩
    · rw [Function.update_of_ne hb] at hm
      exact h.tidy b m hm

theorem mem_dirs {d : Dir} {q : NodeCoord} (h : destination c d = some q) :
    d ∈ neighbourDirs ++ .parent :: childDirs := by
  cases d with
  | neighbour i =>
    have hi : i < 6 := by
      by_contra hno
      simp only [destination, if_neg hno] at h
      cases h
    exact List.mem_append_left _ (List.mem_map_of_mem (List.mem_range.mpr hi))
  | parent => exact List.mem_append_right _ (List.mem_cons_self ..)
  | child i =>
    have hi : i < 8 ∧ 0 < c.scaleIndex := by
      by_contra hno
      simp only [destination, if_neg hno] at h
      cases h
    refine List.mem_append_right _ (List.mem_cons_of_mem _ ?_)
    exact List.mem_map_of_mem (List.mem_range.mpr hi.1)

/-- The world in which `LinkNode` runs: the node is Loaded and has no new links. -/
theorem load_before (h : Linked t w) (now : Int) (hat : w.At s pos a n) :
    ∃ w1, finishLoad t s now w a n.position = linkNode t.maxScale w1 a s pos ∧ Grid t w1 ∧
      w1.stands = w.stands ∧ w1.occupant = w.occupant ∧ w1.links = w.links ∧ w1.Tidy := by
  have hw := h.placed
  have hpos := hw.position hat
  refine ⟨(w.modify a (Node.afterLoad t now)).setScale s (fun scale =>
    { scale with nodes := scale.nodes.insert pos (some a) }), by rw [hpos]; rfl, ?_⟩
  generalize hw1 : (w.modify a (Node.afterLoad t now)).setScale s (fun scale =>
    { scale with nodes := scale.nodes.insert pos (some a) }) = w1
  have hfind1 : ∀ s' p, w1.find s' p = w.find s' p := by
    intro s' p
    rw [← hw1]
    exact World.find_insertNode_same (w := w.modify a (Node.afterLoad t now)) hat.find s' p
      fun _ => rfl
  have hheap1 : w1.heap = (w.modify a (Node.afterLoad t now)).heap := by
    rw [← hw1]
    rfl
  have hcell1 : w1.cell = (w.modify a (Node.afterLoad t now)).cell :=
    cell_congr hfind1 fun b => by rw [hheap1]
  refine ⟨?_, stands_keep hw hat hcell1, ?_, links_keep hat hheap1 ?_, ?_⟩
  · refine grid_of_find hw.grid hfind1 fun b m hm => ?_
    rw [hheap1, World.heap_modify]
    by_cases hb : b = a
    · subst hb
      rw [Function.update_self, hm]
      exact ⟨_, rfl, rfl⟩
    · rw [Function.update_of_ne hb]
      exact ⟨m, hm, rfl⟩
  · funext c
    simp only [World.occupant, hfind1]
  · funext e
    cases e <;> rfl
  · have ht : (w.modify a (Node.afterLoad t now)).Tidy :=
      h.tidy.modify fun m _ hm => ⟨hm.children, hm.neighbours, hm.parent⟩
    intro b m hm
    rw [hheap1] at hm
    exact ht b m hm

theorem links_load (h : Linked t w) (now : Int) (hat : w.At s pos a n) :
    ((finishLoad t s now w a n.position).eraseLoading s it).links =
      (neighbourDirs ++ .parent :: childDirs).foldl
        (compass.joinStep w.occupant a ⟨pos, s⟩) w.links := by
  obtain ⟨w1, hfinal, hgrid1, hstands1, hoccupant1, hlinks1, -⟩ := load_before h now hat
  have ha1 : w1.stands a ⟨pos, s⟩ := by
    rw [hstands1]
    exact stands_of_at hat
  have hlink := links_linkNode hgrid1 ha1
  rw [hoccupant1, hlinks1, ← hfinal] at hlink
  exact hlink

theorem stands_load (h : Linked t w) (now : Int) (hat : w.At s pos a n) :
    ((finishLoad t s now w a n.position).eraseLoading s it).stands = w.stands := by
  funext b c
  simp only [World.stands, cell_load it h.placed now hat]
  by_cases hc : c = ⟨pos, s⟩
  · subst hc
    rw [Function.update_self, cell_of_at hat]
    simp [Node.cell]
  · rw [Function.update_of_ne hc]

theorem load_self (h : Linked t w) (now : Int) (hat : w.At s pos a n) {y : Nat} {q : NodeCoord}
    {d : Dir} (hy : w.stands y q) (hd : destination ⟨pos, s⟩ d = some q) :
    ((finishLoad t s now w a n.position).eraseLoading s it).links a d = some y := by
  rw [links_load h now hat]
  have ha : (site h.placed.grid).stands a ⟨pos, s⟩ := stands_of_at hat
  exact (join_all (occupant_iff h.placed.grid) ha _ h.consistent).2.2 (mem_dirs hd) hd
    ((occupant_iff h.placed.grid q y).mpr hy)

theorem linked_load (h : Linked t w) (now : Int)
    (hit : (w.scales s).loadingNodes[it]? = some pos) (hat : w.At s pos a n)
    (hst : n.state = .loading) :
    Linked t ((finishLoad t s now w a n.position).eraseLoading s it) := by
  have hw := h.placed
  have ha : (site hw.grid).stands a ⟨pos, s⟩ := stands_of_at hat
  have hw' := placed_load hw now hit hat hst
  have hcell := cell_load it hw now hat
  have hstands' : ((finishLoad t s now w a n.position).eraseLoading s it).stands = w.stands :=
    stands_load h now hat
  obtain ⟨hcons, hmono, -⟩ := join_all (occupant_iff hw.grid) ha
    (neighbourDirs ++ .parent :: childDirs) h.consistent
  have hlinks : ((finishLoad t s now w a n.position).eraseLoading s it).links = _ :=
    links_load h now hat
  rw [← hlinks] at hcons hmono
  have hcons' : compass.Consistent (site hw'.grid)
      ((finishLoad t s now w a n.position).eraseLoading s it).links := by
    have hsite : site hw'.grid = site hw.grid := Site.ext hstands'
    rw [hsite]
    exact hcons
  refine ⟨hw', hcons', ?_, ?_⟩
  · intro x y p q d hx hy hd
    have hxs : w.stands x p := by rw [← hstands']; exact stands_of_joined hx
    have hys : w.stands y q := by rw [← hstands']; exact stands_of_joined hy
    by_cases hp : p = ⟨pos, s⟩
    · -- the loaded node itself
      subst hp
      cases (site hw.grid).inj hxs ha
      exact load_self h now hat hys hd
    · by_cases hq : q = ⟨pos, s⟩
      · -- a link to the loaded node, which is the way back of one of its own
        subst hq
        have hya : y = a := (site hw.grid).inj hys ha
        rw [hya] at hy ⊢
        have hback : ((finishLoad t s now w a n.position).eraseLoading s it).links a _ = some x :=
          load_self h now hat hxs (compass.dest_back hd)
        have hya' : (site hw'.grid).stands a ⟨pos, s⟩ := stands_of_joined hy
        have hpair := hcons'.paired hya' hback
        have hd' := compass.back_back hd
        rw [hd'] at hpair
        exact hpair
      · refine hmono (h.complete ?_ ?_ hd)
        · obtain ⟨k, hk, hka, hkst⟩ := hx
          rw [hcell, Function.update_of_ne hp] at hk
          exact ⟨k, hk, hka, hkst⟩
        · obtain ⟨k, hk, hka, hkst⟩ := hy
          rw [hcell, Function.update_of_ne hq] at hk
          exact ⟨k, hk, hka, hkst⟩
  · obtain ⟨w1, hfinal, hgrid1, hstands1, -, -, htidy1⟩ := load_before h now hat
    have ha1 : w1.stands a ⟨pos, s⟩ := by rw [hstands1]; exact ha
    have ht := tidy_linkNode hgrid1 ha1 htidy1
    rw [← hfinal] at ht
    exact ht

theorem heap_destroy (w : World D) (a : Nat) (pos : Vector3i) :
    ((finishUnload t s w a pos).eraseUnloading s it).heap =
      Function.update ((unlinkNode t.maxScale w a s).modify a fun n =>
        { n with state := .invalid, taskState := if t.localNode then .idle else n.taskState }).heap
        a none :=
  heap_destroyPoly _ a

theorem links_destroy (w : World D) (a : Nat) (pos : Vector3i) :
    ((finishUnload t s w a pos).eraseUnloading s it).links =
      fun x e => if x = a then none else (unlinkNode t.maxScale w a s).links x e := by
  funext x e
  simp only [World.links, heap_destroy]
  by_cases hx : x = a
  · subst hx
    rw [Function.update_self, if_pos rfl]
    rfl
  · rw [Function.update_of_ne hx, if_neg hx, World.heap_modify, Function.update_of_ne hx]

theorem stands_destroy (h : Linked t w) (hat : w.At s pos a n) (x : Nat) (c : NodeCoord) :
    ((finishUnload t s w a n.position).eraseUnloading s it).stands x c ↔
      x ≠ a ∧ w.stands x c := by
  have ha : (site h.placed.grid).stands a ⟨pos, s⟩ := stands_of_at hat
  simp only [World.stands, cell_destroy it h.placed hat]
  by_cases hc : c = ⟨pos, s⟩
  · subst hc
    rw [Function.update_self]
    refine iff_of_false (fun hx => by obtain ⟨k, hk, -⟩ := hx; cases hk) ?_
    exact fun hx => hx.1 ((site h.placed.grid).inj hx.2 ha)
  · rw [Function.update_of_ne hc]
    refine ⟨fun hx => ⟨?_, hx⟩, fun hx => hx.2⟩
    rintro rfl
    exact hc ((site h.placed.grid).unique hx ha)

theorem linked_destroy (h : Linked t w) (hit : (w.scales s).unloadingNodes[it]? = some pos)
    (hat : w.At s pos a n) (hst : n.state = .unloading) :
    Linked t ((finishUnload t s w a n.position).eraseUnloading s it) := by
  have hw := h.placed
  have ha : (site hw.grid).stands a ⟨pos, s⟩ := stands_of_at hat
  have hw' := placed_destroy hw hit hat hst
  obtain ⟨all, hdropped, hall⟩ := unlinkNode_dropped hw.grid ha h.tidy h.consistent
  have hlinks : ((finishUnload t s w a n.position).eraseUnloading s it).links = _ :=
    links_destroy w a n.position
  have hsite : site hw'.grid = (site hw.grid).without a := by
    refine Site.ext ?_
    funext x c
    exact propext (stands_destroy h hat x c)
  refine ⟨hw', ?_, ?_, ?_⟩
  · rw [hsite, hlinks]
    exact consistent_remove h.consistent hdropped hall
  · have hback : ∀ {x c}, ((finishUnload t s w a n.position).eraseUnloading s it).joined x c →
        x ≠ a ∧ w.joined x c := by
      intro x c hx
      have hxa := ((stands_destroy h hat x c).mp (stands_of_joined hx)).1
      obtain ⟨k, hk, hka, hkst⟩ := hx
      rw [cell_destroy it hw hat] at hk
      by_cases hc : c = ⟨pos, s⟩
      · subst hc
        rw [Function.update_self] at hk
        cases hk
      · rw [Function.update_of_ne hc] at hk
        exact ⟨hxa, k, hk, hka, hkst⟩
    intro x y p q d hx hy hd
    obtain ⟨hxa, hx⟩ := hback hx
    obtain ⟨hya, hy⟩ := hback hy
    have hxy := h.complete hx hy hd
    rw [hlinks]
    simp only [if_neg hxa]
    rw [hdropped.keep, hxy]
    rw [hxy]
    exact fun hc => hya (Option.some.inj hc)
  · have hun := tidy_unlinkNode h.tidy t.maxScale s a
    have hm := hun.modify (a := a) (f := fun n : Node D =>
      { n with state := .invalid, taskState := if t.localNode then .idle else n.taskState })
      fun m _ hm => ⟨hm.children, hm.neighbours, hm.parent⟩
    intro b m hb
    rw [heap_destroy] at hb
    by_cases hba : b = a
    · subst hba
      rw [Function.update_self] at hb
      cases hb
    · rw [Function.update_of_ne hba] at hb
      exact hm b m hb

theorem effect_linked {c c' : World D × List Event} (h : Linked t c.1) (he : Effect t G c c') :
    Linked t c'.1 := by
  have hw' := effect_placed h.placed he
  cases he with
  | touch now hat => exact linked_modify h hw' hat rfl rfl rfl (fun hn => ⟨hn.1, hn.2, hn.3⟩) id
  | edit body hat => exact linked_modify h hw' hat rfl rfl rfl (fun hn => ⟨hn.1, hn.2, hn.3⟩) id
  | create now hs hfind ha => exact linked_create h now hs hfind ha
  | mark hat hst =>
    refine linked_modify h hw' hat (cell_mark _ _) rfl rfl (fun hn => ⟨hn.1, hn.2, hn.3⟩) ?_
    intro _ hload
    rw [hst] at hload
    cases hload
  | unloadWorld => exact linked_keep h hw' rfl (fun _ _ hx => hx) rfl h.tidy
  | startRead hat _ _ _ _ _ =>
    exact linked_modify h hw' hat rfl rfl rfl (fun hn => ⟨hn.1, hn.2, hn.3⟩) id
  | finishRead seed hat _ _ _ _ _ _ _ =>
    exact linked_modify h hw' hat rfl rfl rfl (fun hn => ⟨hn.1, hn.2, hn.3⟩) id
  | load now _ hit hat hst _ => exact linked_load h now hit hat hst
  | startWrite hat _ _ _ _ _ =>
    exact linked_modify h hw' hat rfl rfl rfl (fun hn => ⟨hn.1, hn.2, hn.3⟩) id
  | destroy _ hit hat hst _ => exact linked_destroy h hit hat hst
  | @destroyWritten w _ _ _ _ a _ τ _ _ hit hat hst =>
    have hw1 : Placed t (w.finishWrite a τ) :=
      placed_keep h.placed rfl (place_finishWrite hat.heap)
    have h1 : Linked t (w.finishWrite a τ) :=
      linked_modify h hw1 hat rfl rfl rfl (fun hn => ⟨hn.1, hn.2, hn.3⟩) id
    have hd := linked_destroy h1 hit (at_finishWrite hat) hst
    exact hd
  | performRead outcome _ _ _ _ _ _ => exact linked_keep h hw' rfl (fun _ _ hx => hx) rfl h.tidy
  | performWrite outcome _ _ _ _ _ _ => exact linked_keep h hw' rfl (fun _ _ hx => hx) rfl h.tidy
  | finish _ _ _ => exact linked_keep h hw' rfl (fun _ _ hx => hx) rfl h.tidy

end CosmicArchitect.Spatial3D
