import CosmicArchitect.Library.LinkGraph
import CosmicArchitect.Spatial3D.Cells

/-!
# The grid of an octree

The links of a world are mutual links on the grid of coordinates: six neighbours in a
scale, eight children one scale down and the parent one scale up. `LinkNode` joins a node in
all directions.
-/

namespace CosmicArchitect.Spatial3D
open Library

/-! ### The grid -/

inductive Dir
  | neighbour (i : Nat)
  | child (i : Nat)
  | parent
deriving DecidableEq, Repr

def destination (c : NodeCoord) : Dir → Option NodeCoord
  | .neighbour i =>
    if i < 6 then some ⟨c.position + nodeNeighbourOffsets i, c.scaleIndex⟩ else none
  | .child i =>
    if i < 8 ∧ 0 < c.scaleIndex then
      some ⟨c.position.shl 1 + nodeChildOffsets i, c.scaleIndex - 1⟩
    else none
  | .parent => some ⟨c.position.shr 1, c.scaleIndex + 1⟩

def opposite (c : NodeCoord) : Dir → Dir
  | .neighbour i => .neighbour (5 - i)
  | .child _ => .parent
  | .parent => .child (getNodeParentIndex c.position)

theorem neighbourOffset_back (p : Vector3i) {i : Nat} (hi : i < 6) :
    p + nodeNeighbourOffsets i + nodeNeighbourOffsets (5 - i) = p := by
  rw [Vector3i.ext_iff']
  have hcases : i = 0 ∨ i = 1 ∨ i = 2 ∨ i = 3 ∨ i = 4 ∨ i = 5 := by omega
  rcases hcases with rfl | rfl | rfl | rfl | rfl | rfl <;> simp [nodeNeighbourOffsets]

theorem neighbourOffset_ne (p : Vector3i) {i : Nat} (hi : i < 6) :
    p + nodeNeighbourOffsets i ≠ p := by
  rw [ne_eq, Vector3i.ext_iff']
  have hcases : i = 0 ∨ i = 1 ∨ i = 2 ∨ i = 3 ∨ i = 4 ∨ i = 5 := by omega
  rcases hcases with rfl | rfl | rfl | rfl | rfl | rfl <;> simp [nodeNeighbourOffsets]

theorem getNodeParentIndex_lt (p : Vector3i) : getNodeParentIndex p < 8 := by
  unfold getNodeParentIndex
  omega

/-- The low bits of a position are its offset in the parent. -/
theorem childOffset_parentIndex (p : Vector3i) :
    nodeChildOffsets (getNodeParentIndex p) = ⟨p.x % 2, p.y % 2, p.z % 2⟩ := by
  have hx : p.x % 2 = 0 ∨ p.x % 2 = 1 := by omega
  have hy : p.y % 2 = 0 ∨ p.y % 2 = 1 := by omega
  have hz : p.z % 2 = 0 ∨ p.z % 2 = 1 := by omega
  rcases hx with hx | hx <;> rcases hy with hy | hy <;> rcases hz with hz | hz <;>
    simp [getNodeParentIndex, hx, hy, hz, nodeChildOffsets]

theorem child_of_parent (p : Vector3i) :
    (p.shr 1).shl 1 + nodeChildOffsets (getNodeParentIndex p) = p := by
  rw [childOffset_parentIndex, Vector3i.shr_one, Vector3i.shl_one, Vector3i.ext_iff']
  simp only [Vector3i.add_x, Vector3i.add_y, Vector3i.add_z]
  omega

theorem parent_of_child (p : Vector3i) {i : Nat} (hi : i < 8) :
    (p.shl 1 + nodeChildOffsets i).shr 1 = p := by
  rw [Vector3i.shr_one, Vector3i.shl_one, Vector3i.ext_iff']
  simp only [Vector3i.add_x, Vector3i.add_y, Vector3i.add_z]
  have hcases : i = 0 ∨ i = 1 ∨ i = 2 ∨ i = 3 ∨ i = 4 ∨ i = 5 ∨ i = 6 ∨ i = 7 := by omega
  rcases hcases with rfl | rfl | rfl | rfl | rfl | rfl | rfl | rfl <;>
    simp only [nodeChildOffsets] <;> omega

theorem parentIndex_of_child (p : Vector3i) {i : Nat} (hi : i < 8) :
    getNodeParentIndex (p.shl 1 + nodeChildOffsets i) = i := by
  rw [Vector3i.shl_one]
  simp only [getNodeParentIndex, Vector3i.add_x, Vector3i.add_y, Vector3i.add_z]
  have hcases : i = 0 ∨ i = 1 ∨ i = 2 ∨ i = 3 ∨ i = 4 ∨ i = 5 ∨ i = 6 ∨ i = 7 := by omega
  rcases hcases with rfl | rfl | rfl | rfl | rfl | rfl | rfl | rfl <;>
    simp only [nodeChildOffsets] <;> omega

def compass : Compass NodeCoord Dir where
  dest := destination
  back := opposite
  dest_back := by
    intro c d q h
    cases d with
    | neighbour i =>
      simp only [destination] at h
      split at h
      · next hi =>
        cases h
        have hi' : 5 - i < 6 := by omega
        simp only [opposite, destination, if_pos hi', neighbourOffset_back c.position hi]
      · cases h
    | child i =>
      simp only [destination] at h
      split at h
      · next hi =>
        cases h
        have hs : c.scaleIndex - 1 + 1 = c.scaleIndex := by omega
        simp only [opposite, destination, parent_of_child c.position hi.1, hs]
      · cases h
    | parent =>
      cases h
      have hlt := getNodeParentIndex_lt c.position
      have hs : c.scaleIndex + 1 - 1 = c.scaleIndex := by omega
      simp only [opposite, destination, if_pos (And.intro hlt (Nat.succ_pos _)),
        child_of_parent, hs]
  back_back := by
    intro c d q h
    cases d with
    | neighbour i =>
      simp only [destination] at h
      split at h
      · next hi =>
        have hi' : 5 - (5 - i) = i := by omega
        simp only [opposite, hi']
      · cases h
    | child i =>
      simp only [destination] at h
      split at h
      · next hi =>
        cases h
        simp only [opposite, parentIndex_of_child c.position hi.1]
      · cases h
    | parent => rfl
  dest_ne := by
    intro c d h
    cases d with
    | neighbour i =>
      simp only [destination] at h
      split at h
      · next hi =>
        have hp := congrArg NodeCoord.position (Option.some.inj h)
        exact neighbourOffset_ne c.position hi hp
      · cases h
    | child i =>
      simp only [destination] at h
      split at h
      · next hi =>
        have hs := congrArg NodeCoord.scaleIndex (Option.some.inj h)
        simp only at hs
        omega
      · cases h
    | parent =>
      have hs := congrArg NodeCoord.scaleIndex (Option.some.inj h)
      simp only at hs
      omega

/-! ### The links of a world -/

variable {D : Type} {t : TypeData D} {G : Guard} {w w' : World D} {s : Nat} {a : Nat}
  {pos : Vector3i} {c : NodeCoord}

def Node.link (n : Node D) : Dir → Option Nat
  | .neighbour i => n.neighbours i
  | .child i => n.children i
  | .parent => n.parent

def World.links (w : World D) (a : Nat) (d : Dir) : Option Nat := (w.heap a).bind (·.link d)

def World.occupant (w : World D) (c : NodeCoord) : Option Nat :=
  (w.find c.scaleIndex c.position).join

def World.stands (w : World D) (a : Nat) (c : NodeCoord) : Prop :=
  ∃ k, w.cell c = some k ∧ k.addr = a

theorem stands_of_at {n : Node D} (hat : w.At s pos a n) : w.stands a ⟨pos, s⟩ :=
  ⟨n.cell a, cell_of_at hat, rfl⟩

theorem at_of_stands (h : w.stands a c) : ∃ n, w.At c.scaleIndex c.position a n := by
  obtain ⟨k, hk, rfl⟩ := h
  obtain ⟨n, hat, -⟩ := at_of_cell hk
  exact ⟨n, hat⟩

/- Addresses and positions agree with the maps; what `LinkNode` and `UnlinkNode` rely on
   while the command lists are being changed. -/
structure Grid (t : TypeData D) (w : World D) : Prop where
  unique : ∀ {s s' p p' a}, w.find s p = some (some a) → w.find s' p' = some (some a) →
    s = s' ∧ p = p'
  live : ∀ {s p a}, w.find s p = some (some a) →
    s < t.maxScale ∧ ∃ n, w.heap a = some n ∧ n.position = p

theorem Placed.grid (hw : Placed t w) : Grid t w where
  unique h h' := Placement.unique hw h h'
  live h := by
    obtain ⟨hs, b, st, hb, hpl, -⟩ := Placement.live hw h
    cases hb
    obtain ⟨n, hn, hpair⟩ := Option.map_eq_some_iff.mp hpl
    exact ⟨hs, n, hn, congrArg Prod.fst hpair⟩

theorem Grid.position (hw : Grid t w) {n : Node D} (hat : w.At s pos a n) : n.position = pos := by
  obtain ⟨-, m, hm, hp⟩ := hw.live hat.find
  cases hat.heap.symm.trans hm
  exact hp

/-- The sites of the stored nodes. -/
def site (hw : Grid t w) : Site Nat NodeCoord where
  stands := w.stands
  unique := by
    intro a p q hp hq
    obtain ⟨n, hn⟩ := at_of_stands hp
    obtain ⟨m, hm⟩ := at_of_stands hq
    obtain ⟨hs, hpos⟩ := hw.unique hn.find hm.find
    cases p
    cases q
    cases hs
    cases hpos
    rfl
  inj := by
    intro a b p ha hb
    obtain ⟨k, hk, rfl⟩ := ha
    obtain ⟨l, hl, rfl⟩ := hb
    cases hk.symm.trans hl
    rfl

theorem occupant_iff (hw : Grid t w) (q : NodeCoord) (b : Nat) :
    w.occupant q = some b ↔ w.stands b q := by
  constructor
  · intro h
    have hfind : w.find q.scaleIndex q.position = some (some b) := Option.join_eq_some_iff.mp h
    obtain ⟨-, m, hm, -⟩ := hw.live hfind
    exact stands_of_at ⟨hfind, hm⟩
  · intro h
    obtain ⟨n, hat⟩ := at_of_stands h
    simp only [World.occupant, hat.find, Option.join_some]

theorem links_of_heap {n : Node D} (hn : w.heap a = some n) (d : Dir) :
    w.links a d = n.link d := by
  simp only [World.links, hn, Option.bind_some]

theorem links_modify {n : Node D} (hn : w.heap a = some n) (f : Node D → Node D) (x : Nat)
    (e : Dir) : (w.modify a f).links x e = if x = a then (f n).link e else w.links x e := by
  by_cases hx : x = a
  · subst hx
    rw [if_pos rfl]
    simp only [World.links, World.heap_modify, Function.update_self, hn, Option.map_some,
      Option.bind_some]
  · rw [if_neg hx]
    simp only [World.links, World.heap_modify, Function.update_of_ne hx]

theorem links_join {b : Nat} {d : Dir} {n m : Node D} {f g : Node D → Node D}
    (hn : w.heap a = some n) (hm : w.heap b = some m) (hab : a ≠ b)
    (hf : ∀ e, (f n).link e = if e = d then some b else n.link e)
    (hg : ∀ e, (g m).link e = if e = opposite c d then some a else m.link e) :
    ((w.modify a f).modify b g).links = compass.join a c b w.links d := by
  have hm' : (w.modify a f).heap b = some m := by
    rw [World.heap_modify, Function.update_of_ne (Ne.symm hab)]
    exact hm
  funext x e
  rw [links_modify hm', links_modify hn, hf, hg]
  simp only [Compass.join]
  by_cases hxa : x = a
  · subst hxa
    rw [if_neg hab, if_pos rfl, ← links_of_heap hn e]
    by_cases he : e = d
    · rw [if_pos he, if_pos ⟨rfl, he⟩]
    · rw [if_neg he, if_neg fun hc => he hc.2, if_neg fun hc => hab hc.1]
  · rw [if_neg hxa, if_neg (c := x = a ∧ e = d) fun hc => hxa hc.1]
    by_cases hxb : x = b
    · subst hxb
      rw [if_pos rfl, ← links_of_heap hm e]
      by_cases he : e = opposite c d
      · rw [if_pos he, if_pos ⟨rfl, he⟩]
      · rw [if_neg he, if_neg fun hc => he hc.2]
    · rw [if_neg hxb, if_neg fun hc => hxb hc.1]

theorem link_setNeighbour (n : Node D) (i b : Nat) (e : Dir) :
    (n.setNeighbour i b).link e = if e = .neighbour i then some b else n.link e := by
  cases e with
  | neighbour j => by_cases h : j = i <;> simp [Node.link, Node.setNeighbour, Function.update, h]
  | child j => simp [Node.link, Node.setNeighbour]
  | parent => simp [Node.link, Node.setNeighbour]

theorem link_setChild (n : Node D) (i b : Nat) (e : Dir) :
    (n.setChild i b).link e = if e = .child i then some b else n.link e := by
  cases e with
  | neighbour j => simp [Node.link, Node.setChild]
  | child j => by_cases h : j = i <;> simp [Node.link, Node.setChild, Function.update, h]
  | parent => simp [Node.link, Node.setChild]

theorem link_setParent (n : Node D) (b i : Nat) (e : Dir) :
    (n.setParent b i).link e = if e = .parent then some b else n.link e := by
  cases e <;> simp [Node.link, Node.setParent]

/-- The node in a direction is another one. -/
theorem stands_ne (hw : Grid t w) (ha : w.stands a c) {d : Dir} {q : NodeCoord} {b : Nat}
    (hd : destination c d = some q) (hb : w.stands b q) : a ≠ b := by
  rintro rfl
  have hq := (site hw).unique ha hb
  subst hq
  exact compass.dest_ne c d hd

theorem links_joinStep (hw : Grid t w) (ha : w.stands a c) {d : Dir} {q : NodeCoord}
    (hd : destination c d = some q) {f g : Nat → Node D → Node D}
    (hf : ∀ n b e, (f b n).link e = if e = d then some b else n.link e)
    (hg : ∀ m e, (g a m).link e = if e = opposite c d then some a else m.link e)
    (hsome : ∀ b, w.find q.scaleIndex q.position = some (some b) →
      w' = (w.modify a (f b)).modify b (g a))
    (hnone : (w.find q.scaleIndex q.position).join = none → w' = w) :
    w'.links = compass.joinStep w.occupant a c w.links d := by
  have hbind : (compass.dest c d).bind w.occupant = w.occupant q := by
    show (destination c d).bind w.occupant = w.occupant q
    rw [hd, Option.bind_some]
  cases hb : w.occupant q with
  | none =>
    have hstep : compass.joinStep w.occupant a c w.links d = w.links := by
      simp only [Compass.joinStep, hbind, hb]
    rw [hstep, hnone hb]
  | some b =>
    have hstands := (occupant_iff hw q b).mp hb
    obtain ⟨n, hn⟩ := at_of_stands ha
    obtain ⟨m, hm⟩ := at_of_stands hstands
    have hstep : compass.joinStep w.occupant a c w.links d = compass.join a c b w.links d := by
      simp only [Compass.joinStep, hbind, hb]
    rw [hstep, hsome b hm.find]
    exact links_join hn.heap hm.heap (stands_ne hw ha hd hstands) (hf n b) (hg m)

theorem links_linkNeighbour (hw : Grid t w) (ha : w.stands a ⟨pos, s⟩) {i : Nat} (hi : i < 6) :
    (linkNeighbour s a pos w i).links =
      compass.joinStep w.occupant a ⟨pos, s⟩ w.links (.neighbour i) := by
  have hd : destination ⟨pos, s⟩ (.neighbour i) = some ⟨pos + nodeNeighbourOffsets i, s⟩ := by
    simp only [destination, if_pos hi]
  refine links_joinStep hw ha hd (f := fun b n => n.setNeighbour i b)
    (g := fun a m => m.setNeighbour (5 - i) a) (fun n b e => link_setNeighbour n i b e)
    (fun m e => link_setNeighbour m (5 - i) a e) ?_ ?_
  · intro b hb
    simp only [linkNeighbour, hb]
  · intro hb
    unfold linkNeighbour
    split
    · next b hfind =>
      simp only [hfind, Option.join_some] at hb
      cases hb
    · rfl

theorem links_linkParent (hw : Grid t w) (ha : w.stands a ⟨pos, s⟩) :
    (linkParent s a pos w).links = compass.joinStep w.occupant a ⟨pos, s⟩ w.links .parent := by
  refine links_joinStep hw ha (q := ⟨pos.shr 1, s + 1⟩) rfl
    (f := fun b n => n.setParent b (getNodeParentIndex pos))
    (g := fun a m => m.setChild (getNodeParentIndex pos) a)
    (fun n b e => link_setParent n b _ e) (fun m e => link_setChild m _ a e) ?_ ?_
  · intro b hb
    simp only [linkParent, hb]
  · intro hb
    unfold linkParent
    split
    · next b hfind =>
      simp only [hfind, Option.join_some] at hb
      cases hb
    · rfl

theorem links_linkChild (hw : Grid t w) (ha : w.stands a ⟨pos, s⟩) (hs : 0 < s) {i : Nat}
    (hi : i < 8) : (linkChild s a pos w i).links =
      compass.joinStep w.occupant a ⟨pos, s⟩ w.links (.child i) := by
  have hd : destination ⟨pos, s⟩ (.child i) = some ⟨pos.shl 1 + nodeChildOffsets i, s - 1⟩ := by
    simp only [destination, if_pos (And.intro hi hs)]
  refine links_joinStep hw ha hd (f := fun b n => n.setChild i b)
    (g := fun a m => m.setParent a i) (fun n b e => link_setChild n i b e)
    (fun m e => link_setParent m a i e) ?_ ?_
  · intro b hb
    simp only [linkChild, hb]
  · intro hb
    unfold linkChild
    split
    · next b hfind =>
      simp only [hfind, Option.join_some] at hb
      cases hb
    · rfl

/-! ### `LinkNode` joins in all directions -/

theorem cell_of_core (h : w'.core = w.core) : w'.cell = w.cell :=
  cell_congr (find_of_core h) (heap_of_core h)

theorem grid_of_find (hw : Grid t w) (hfind : ∀ s p, w'.find s p = w.find s p)
    (hheap : ∀ a n, w.heap a = some n → ∃ m, w'.heap a = some m ∧ m.position = n.position) :
    Grid t w' where
  unique := by
    intro s s' p p' a ha hb
    rw [hfind] at ha hb
    exact hw.unique ha hb
  live := by
    intro s p a ha
    rw [hfind] at ha
    obtain ⟨hs, n, hn, hp⟩ := hw.live ha
    obtain ⟨m, hm, hmn⟩ := hheap a n hn
    exact ⟨hs, m, hm, hmn.trans hp⟩

theorem grid_of_core (hw : Grid t w) (h : w'.core = w.core) : Grid t w' := by
  refine grid_of_find hw (find_of_core h) fun a n hn => ?_
  have hcore := heap_of_core h a
  rw [hn, Option.map_some] at hcore
  obtain ⟨m, hm, hmn⟩ := Option.map_eq_some_iff.mp hcore
  have hp : m.core.position = n.core.position := by rw [hmn]
  exact ⟨m, hm, hp⟩

theorem stands_of_core (h : w'.core = w.core) : w'.stands = w.stands := by
  funext a c
  simp only [World.stands, cell_of_core h]

theorem occupant_of_core (h : w'.core = w.core) : w'.occupant = w.occupant := by
  funext c
  simp only [World.occupant, find_of_core h]

/-- The directions in the order of `LinkNode` and `UnlinkNode`. -/
def neighbourDirs : List Dir := (List.range 6).map .neighbour
def childDirs : List Dir := (List.range 8).map .child

theorem links_joinLoop {ι : Type} {g : World D → ι → World D} {dir : ι → Dir}
    (hcore : ∀ w i, (g w i).core = w.core) (find : NodeCoord → Option Nat) (l : List ι)
    (hg : ∀ i ∈ l, ∀ w, Grid t w → w.stands a c →
      (g w i).links = compass.joinStep w.occupant a c w.links (dir i)) :
    ∀ w, Grid t w → w.stands a c → w.occupant = find →
      (l.foldl g w).links = (l.map dir).foldl (compass.joinStep find a c) w.links := by
  induction l with
  | nil =>
    intro w _ _ _
    rfl
  | cons i l ih =>
    intro w hw ha hfind
    have hi := hg i (List.mem_cons_self ..) w hw ha
    have hrest := ih (fun j hj => hg j (List.mem_cons_of_mem _ hj)) (g w i)
      (grid_of_core hw (hcore w i)) (by rw [stands_of_core (hcore w i)]; exact ha)
      (by rw [occupant_of_core (hcore w i)]; exact hfind)
    rw [List.foldl_cons, List.map_cons, List.foldl_cons, hrest, hi, hfind]

theorem joinStep_none {find : NodeCoord → Option Nat} {L : Compass.Links Nat Dir} {d : Dir}
    (h : (destination c d).bind find = none) : compass.joinStep find a c L d = L := by
  have hbind : (compass.dest c d).bind find = none := h
  simp only [Compass.joinStep, hbind]

theorem links_linkNode (hw : Grid t w) (ha : w.stands a ⟨pos, s⟩) :
    (linkNode t.maxScale w a s pos).links = (neighbourDirs ++ .parent :: childDirs).foldl
      (compass.joinStep w.occupant a ⟨pos, s⟩) w.links := by
  rw [List.foldl_append, List.foldl_cons]
  have hcn := core_foldl (core_linkNeighbour (D := D) s a pos) (List.range 6) w
  have hn : ((List.range 6).foldl (linkNeighbour s a pos) w).links =
      neighbourDirs.foldl (compass.joinStep w.occupant a ⟨pos, s⟩) w.links :=
    links_joinLoop (core_linkNeighbour s a pos) w.occupant (List.range 6)
      (fun i hi w hw ha => links_linkNeighbour hw ha (List.mem_range.mp hi)) w hw ha rfl
  -- the loop over the neighbours, then the parent, then the loop over the children
  generalize hw1 : (List.range 6).foldl (linkNeighbour s a pos) w = w1 at hcn hn
  have hw1p := grid_of_core hw hcn
  have ha1 : w1.stands a ⟨pos, s⟩ := by rw [stands_of_core hcn]; exact ha
  have ho1 : w1.occupant = w.occupant := occupant_of_core hcn
  have hp : ∃ w2, (if s + 1 < t.maxScale then linkParent s a pos w1 else w1) = w2 ∧
      w2.core = w1.core ∧ w2.links =
        compass.joinStep w.occupant a ⟨pos, s⟩ w1.links .parent := by
    by_cases hs : s + 1 < t.maxScale
    · refine ⟨_, if_pos hs, core_linkParent s a pos w1, ?_⟩
      rw [links_linkParent hw1p ha1, ho1]
    · refine ⟨w1, if_neg hs, rfl, (joinStep_none ?_).symm⟩
      cases hb : w.occupant ⟨pos.shr 1, s + 1⟩ with
      | none => exact hb
      | some b =>
        obtain ⟨n, hat⟩ := at_of_stands ((occupant_iff hw _ b).mp hb)
        exact absurd (hw.live hat.find).1 hs
  obtain ⟨w2, hw2, hcp, hlp⟩ := hp
  have hw2p := grid_of_core hw1p hcp
  have ha2 : w2.stands a ⟨pos, s⟩ := by rw [stands_of_core hcp]; exact ha1
  have ho2 : w2.occupant = w.occupant := (occupant_of_core hcp).trans ho1
  simp only [linkNode, hw1, hw2]
  rw [← hn, ← hlp]
  by_cases hs : 0 < s
  · rw [if_pos hs]
    exact links_joinLoop (core_linkChild s a pos) w.occupant (List.range 8)
      (fun i hi w hw ha => links_linkChild hw ha hs (List.mem_range.mp hi)) w2 hw2p ha2 ho2
  · rw [if_neg hs]
    have hskip : ∀ (l : List Nat) (L : Compass.Links Nat Dir),
        (l.map Dir.child).foldl (compass.joinStep w.occupant a ⟨pos, s⟩) L = L := by
      intro l
      induction l with
      | nil => intro L; rfl
      | cons i l ih =>
        intro L
        rw [List.map_cons, List.foldl_cons, joinStep_none, ih]
        simp only [destination, if_neg (fun hc : i < 8 ∧ 0 < s => hs hc.2), Option.bind_none]
    exact (hskip (List.range 8) w2.links).symm

end CosmicArchitect.Spatial3D
