import CosmicArchitect.Util.TinyOctreeMap
import Mathlib.Tactic.Choose

/-!
# Iterating over an octree (Util/TinyOctree.h)

The callback gets the positions of the tree, put together from the mask of the root and the
octants on the way to a leaf. What it gets is the list of its calls.
-/

namespace CosmicArchitect.Util.TinyOctree
open Library Blocks

section Model
variable {Item : Type} [DecidableEq Item] (kDepth : Nat) (kInvalidItem : Item)

/-- The order of the three loops over `x`, `y` and `z`. -/
def octants : List Octant :=
  [false, true].flatMap fun x => [false, true].flatMap fun y => [false, true].map fun z => (x, y, z)

/-- `godot::Vector3i(x, y, z)` -/
def posOf (c : Octant) : Vector3i := ⟨c.1.toNat, c.2.1.toNat, c.2.2.toNat⟩

def Cell.toPos (p : Cell) : Vector3i := ⟨p.x, p.y, p.z⟩

/-- `IterateLeaf` (lines 341-359) -/
def iterateLeaf (data : List (Node Item)) (a : Nat) (pos : Vector3i) :
    Option (List (Vector3i × Item)) :=
  (getItemNode data a).map fun items => octants.flatMap fun c =>
    if items c = kInvalidItem then [] else [(pos + posOf c, items c)]

/-- The loops of `IterateBranch`; `iterateChild` is called for the children there are. -/
def iterateChildren (data : List (Node Item)) (shift : Nat)
    (iterateChild : Nat → Vector3i → Option (List (Vector3i × Item))) (a : Nat) (pos : Vector3i) :
    Option (List (Vector3i × Item)) :=
  (getOffsetNode data a).bind fun offsets =>
    (octants.mapM fun c =>
      if offsets c = kInvalidOffset then some []
      else iterateChild (a + (offsets c).toNat) (pos + (posOf c).shl shift)).map List.flatten

/-- `IterateBranch` (lines 311-338), `branches` levels of branches above the one with leaves. -/
def iterateBranch (data : List (Node Item)) :
    Nat → Nat → Vector3i → Option (List (Vector3i × Item))
  | 0 => iterateChildren data 1 (iterateLeaf kInvalidItem data)
  | branches + 1 => iterateChildren data (branches + 2) (iterateBranch data branches)

/-- `Iterate` (lines 184-206) -/
def iterate (o : TinyOctree Item) : Option (List (Vector3i × Item)) :=
  let pos := o.mask.toPos
  if o.startDepth = kDepth then
    some (if o.singleItem ≠ kInvalidItem then [(pos, o.singleItem)] else [])
  else if o.startDepth = kDepth - 1 then iterateLeaf kInvalidItem o.data 0 pos
  else iterateBranch kInvalidItem o.data (kDepth - 2 - o.startDepth) 0 pos

end Model

/-! ### Cells below a node -/

variable {n : Nat} {p q b : Cell}

/-- The bits below `n` are zero. -/
def Aligned (n : Nat) (b : Cell) : Prop := cutOff b.x n = b.x ∧ cutOff b.y n = b.y ∧ cutOff b.z n = b.z

/-- The first cell of the child in an octant. -/
def childCell (b : Cell) (n : Nat) (c : Octant) : Cell :=
  ⟨b.x + c.1.toNat * 2 ^ n, b.y + c.2.1.toNat * 2 ^ n, b.z + c.2.2.toNat * 2 ^ n⟩

theorem toPos_child (b : Cell) (n : Nat) (c : Octant) :
    b.toPos + (posOf c).shl n = (childCell b n c).toPos := by
  rw [Vector3i.ext_iff']
  simp [Cell.toPos, posOf, Vector3i.shl, childCell]

theorem toPos_child_zero (b : Cell) (c : Octant) :
    b.toPos + posOf c = (childCell b 0 c).toPos := by
  rw [Vector3i.ext_iff']
  simp [Cell.toPos, posOf, childCell]

theorem toPos_inj : p.toPos = q.toPos ↔ p = q := by
  cases p
  cases q
  simp [Cell.toPos]

theorem ofPos_toPos (p : Cell) : Cell.ofPos p.toPos = p := by
  simp [Cell.ofPos, Cell.toPos]

/-- One component of the child's first cell: the bits above are those of the parent, the bit
itself is that of the octant, the bits below are zero. -/
theorem child_component {v : Nat} (hv : cutOff v (n + 1) = v) (t : Bool) :
    (v + t.toNat * 2 ^ n) / 2 ^ (n + 1) = v / 2 ^ (n + 1) ∧
    (v + t.toNat * 2 ^ n &&& 2 ^ n != 0) = t ∧
    cutOff (v + t.toNat * 2 ^ n) n = v + t.toNat * 2 ^ n := by
  obtain ⟨m, hm⟩ : ∃ m, v = m * 2 ^ (n + 1) := ⟨_, ((cutOff_eq v (n + 1)).symm.trans hv).symm⟩
  have hsum : v + t.toNat * 2 ^ n = (2 * m + t.toNat) * 2 ^ n := by
    rw [hm, Nat.pow_succ, Nat.add_mul]
    congr 1
    rw [Nat.mul_comm (2 ^ n) 2, ← Nat.mul_assoc, Nat.mul_comm m 2]
  have hpos : 0 < 2 ^ n := Nat.two_pow_pos n
  have hdiv : (v + t.toNat * 2 ^ n) / 2 ^ n = 2 * m + t.toNat := by
    rw [hsum, Nat.mul_div_cancel _ hpos]
  refine ⟨?_, ?_, ?_⟩
  · rw [Nat.pow_succ, ← Nat.div_div_eq_div_mul, hdiv, ← Nat.pow_succ, hm,
      Nat.mul_div_cancel _ (Nat.two_pow_pos _)]
    cases t <;> simp only [Bool.toNat_true, Bool.toNat_false] <;> omega
  · rw [bit_eq, hdiv]
    cases t <;> simp
  · rw [cutOff_eq, hdiv, hsum]

theorem childCell_aligned (h : Aligned (n + 1) b) (c : Octant) : Aligned n (childCell b n c) :=
  ⟨(child_component h.1 c.1).2.2, (child_component h.2.1 c.2.1).2.2,
    (child_component h.2.2 c.2.2).2.2⟩

/-- The cells below a child are those below its parent in the octant. -/
theorem child_agree (h : Aligned (n + 1) b) (c : Octant) :
    Agree n q (childCell b n c) ↔ Agree (n + 1) q b ∧ octant q (2 ^ n) = c := by
  obtain ⟨hx, hbx, -⟩ := child_component h.1 c.1
  obtain ⟨hy, hby, -⟩ := child_component h.2.1 c.2.1
  obtain ⟨hz, hbz, -⟩ := child_component h.2.2 c.2.2
  rw [agree_iff]
  have hbits : octant (childCell b n c) (2 ^ n) = c := by
    simp only [octant, childCell, hbx, hby, hbz]
  rw [hbits]
  refine and_congr_left fun _ => ?_
  simp only [Agree, childCell, hx, hy, hz]

/-! ### Lists of callbacks -/

variable {Item : Type} {inv : Item}

/-- The callbacks for the cells of a region: one for each cell with an item, with its item. -/
structure Visits (inv : Item) (region : Cell → Prop) (item : Cell → Item)
    (calls : List (Vector3i × Item)) : Prop where
  nodup : (calls.map Prod.fst).Nodup
  mem : ∀ pos v, (pos, v) ∈ calls ↔ ∃ q, region q ∧ q.toPos = pos ∧ item q = v ∧ v ≠ inv

theorem visits_nil {region : Cell → Prop} {item : Cell → Item}
    (h : ∀ q, region q → item q = inv) : Visits inv region item [] where
  nodup := List.nodup_nil
  mem pos v := by
    refine ⟨fun hmem => absurd hmem List.not_mem_nil, ?_⟩
    rintro ⟨q, hq, _, hitem, hne⟩
    exact absurd (hitem.symm.trans (h q hq)) hne

variable (inv) in
theorem visits_one [DecidableEq Item] (b : Cell) (item : Cell → Item) :
    Visits inv (fun q => q = b) item (if item b = inv then [] else [(b.toPos, item b)]) := by
  by_cases h : item b = inv
  · rw [if_pos h]
    exact visits_nil fun q hq => hq ▸ h
  · rw [if_neg h]
    refine ⟨List.nodup_singleton _, fun pos v => ?_⟩
    rw [List.mem_singleton, Prod.mk.injEq]
    constructor
    · rintro ⟨rfl, rfl⟩
      exact ⟨b, rfl, rfl, rfl, h⟩
    · rintro ⟨q, rfl, rfl, rfl, _⟩
      exact ⟨rfl, rfl⟩

theorem mem_octants (c : Octant) : c ∈ octants := by
  obtain ⟨x, y, z⟩ := c
  cases x <;> cases y <;> cases z <;> decide

theorem octants_nodup : octants.Nodup := by decide

/-- The regions of the eight children make up the region of the parent. -/
theorem visits_children {region : Cell → Prop} {child : Octant → Cell → Prop}
    {bit : Nat} {item : Cell → Item} {calls : Octant → List (Vector3i × Item)}
    (hchild : ∀ c q, child c q ↔ region q ∧ octant q bit = c)
    (h : ∀ c, Visits inv (child c) item (calls c)) :
    Visits inv region item (octants.flatMap calls) where
  nodup := by
    rw [List.map_flatMap, List.nodup_flatMap]
    refine ⟨fun c _ => (h c).nodup, octants_nodup.imp ?_⟩
    intro c c' hne
    -- a position in the lists of two children would be one cell in two octants
    have hcell : ∀ {c pos}, pos ∈ (calls c).map Prod.fst → ∃ q, q.toPos = pos ∧ octant q bit = c := by
      intro c pos hpos
      obtain ⟨⟨pos', v⟩, hmem, rfl⟩ := List.mem_map.mp hpos
      obtain ⟨q, hq, hpos, _⟩ := ((h c).mem pos' v).mp hmem
      exact ⟨q, hpos, ((hchild c q).mp hq).2⟩
    intro pos hpos hpos'
    obtain ⟨q, hq, hc⟩ := hcell hpos
    obtain ⟨q', hq', hc'⟩ := hcell hpos'
    rw [← hq'] at hq
    exact hne (hc.symm.trans ((congrArg (octant · bit) (toPos_inj.mp hq)).trans hc'))
  mem pos v := by
    simp only [List.mem_flatMap, (h _).mem, hchild]
    constructor
    · rintro ⟨c, _, q, ⟨hq, _⟩, hrest⟩
      exact ⟨q, hq, hrest⟩
    · rintro ⟨q, hq, hrest⟩
      exact ⟨octant q bit, mem_octants _, q, ⟨hq, rfl⟩, hrest⟩

theorem mapM_some {α β : Type} {f : α → Option β} {g : α → β} {l : List α}
    (h : ∀ a ∈ l, f a = some (g a)) : l.mapM f = some (l.map g) := by
  induction l with
  | nil => rfl
  | cons a l ih =>
    rw [List.mapM_cons, h a List.mem_cons_self, ih fun b hb => h b (List.mem_cons_of_mem _ hb)]
    rfl

/-! ### Iterating below a node -/

variable [DecidableEq Item] {data : List (Node Item)} {m : Nat}

variable (inv) in
theorem iterateLeaf_spec (h : (kind Item).IsTree data m) {π : List Octant} {a : Nat}
    (hπ : (kind Item).follow data π 0 = some a) (hlen : π.length = m) (hb : Aligned 1 b) :
    ∃ calls, iterateLeaf inv data a b.toPos = some calls ∧
      Visits inv (fun q => Agree 1 q b) (fun q => content inv data π (octant q 1)) calls := by
  obtain ⟨items, hitems⟩ := itemNode_of_path h hπ hlen
  have hcontent : ∀ c, content inv data π c = items c := content_some hπ hitems
  refine ⟨_, by rw [iterateLeaf, getItemNode_eq hitems]; rfl, ?_⟩
  have hchild : ∀ c q, q = childCell b 0 c ↔ Agree 1 q b ∧ octant q 1 = c := by
    intro c q
    rw [← agree_zero, child_agree hb, Nat.pow_zero]
  refine visits_children hchild fun c => ?_
  · have hone := visits_one inv (childCell b 0 c) fun q => content inv data π (octant q 1)
    have hbit : octant (childCell b 0 c) 1 = c := ((hchild c _).mp rfl).2
    rw [hbit, hcontent] at hone
    rw [toPos_child_zero]
    exact hone

omit [DecidableEq Item] in
theorem Visits.congr {region region' : Cell → Prop} {item item' : Cell → Item}
    {calls : List (Vector3i × Item)} (h : Visits inv region item calls)
    (hregion : ∀ q, region' q ↔ region q) (hitem : ∀ q, region q → item' q = item q) :
    Visits inv region' item' calls where
  nodup := h.nodup
  mem pos v := by
    rw [h.mem]
    refine exists_congr fun q => ?_
    rw [hregion]
    exact and_congr_right fun hq => by rw [hitem q hq]

omit [DecidableEq Item] in
/-- The loops over the children visit what lies below the node, if each child does so. -/
theorem iterateChildren_spec (h : (kind Item).IsTree data m) {π : List Octant} {a r : Nat}
    (hπ : (kind Item).follow data π 0 = some a) (hlen : π.length + (r + 1) = m)
    (hb : Aligned (r + 2) b)
    {iterateChild : Nat → Vector3i → Option (List (Vector3i × Item))}
    (hchild : ∀ c offset, (kind Item).follow data (π ++ [c]) 0 = some (a + offset) →
      ∃ calls, iterateChild (a + offset) (childCell b (r + 1) c).toPos = some calls ∧
        Visits inv (fun q => Agree (r + 1) q (childCell b (r + 1) c))
          (fun q => content inv data ((π ++ [c]) ++ path q r) (octant q 1)) calls) :
    ∃ calls, iterateChildren data (r + 1) iterateChild a b.toPos = some calls ∧
      Visits inv (fun q => Agree (r + 2) q b)
        (fun q => content inv data (π ++ path q (r + 1)) (octant q 1)) calls := by
  obtain ⟨offsets, hoffsets⟩ := offsetNode_of_path h hπ (by omega)
  have hlink := fun c => linkAt_offsetNode hoffsets c
  have hone : ∀ c, ∃ calls,
      (if offsets c = kInvalidOffset then some []
        else iterateChild (a + (offsets c).toNat) (b.toPos + (posOf c).shl (r + 1))) = some calls ∧
      Visits inv (fun q => Agree (r + 1) q (childCell b (r + 1) c))
        (fun q => content inv data (π ++ path q (r + 1)) (octant q 1)) calls := by
    intro c
    -- below the child the path begins with its octant
    have hpath : ∀ q, Agree (r + 1) q (childCell b (r + 1) c) →
        π ++ path q (r + 1) = π ++ c :: path q r := by
      intro q hq
      rw [path, ((child_agree hb c).mp hq).2]
    by_cases hc : offsets c = kInvalidOffset
    · have hnone : (kind Item).linkAt data a c = none := by rw [hlink, if_pos hc]
      refine ⟨[], if_pos hc, visits_nil fun q hq => ?_⟩
      rw [hpath q hq]
      exact content_none (follow_missing hπ hnone _) _
    · have hsome : (kind Item).linkAt data a c = some (offsets c).toNat := by rw [hlink, if_neg hc]
      obtain ⟨calls, hcalls, hvisits⟩ := hchild c _ (follow_child hπ hsome)
      refine ⟨calls, by rw [if_neg hc, toPos_child, hcalls], ?_⟩
      refine hvisits.congr (fun _ => Iff.rfl) fun q hq => ?_
      rw [hpath q hq, List.append_assoc, List.singleton_append]
  choose calls hcalls hvisits using hone
  refine ⟨octants.flatMap calls, ?_, visits_children (fun c _ => child_agree hb c) hvisits⟩
  rw [iterateChildren, getOffsetNode_eq hoffsets, Option.bind_some, mapM_some fun c _ => hcalls c,
    Option.map_some, List.flatMap_def]

variable (inv) in
/-- The recursion of `IterateBranch`, by induction on the levels of branches below. -/
theorem iterateBranch_spec (h : (kind Item).IsTree data m) (branches : Nat) :
    ∀ {π : List Octant} {a : Nat} {b : Cell}, (kind Item).follow data π 0 = some a →
      π.length + (branches + 1) = m → Aligned (branches + 2) b →
      ∃ calls, iterateBranch inv data branches a b.toPos = some calls ∧
        Visits inv (fun q => Agree (branches + 2) q b)
          (fun q => content inv data (π ++ path q (branches + 1)) (octant q 1)) calls := by
  induction branches with
  | zero =>
    intro π a b hπ hlen hb
    refine iterateChildren_spec h hπ hlen hb fun c offset hc => ?_
    have hlength : (π ++ [c]).length = m := by
      rw [List.length_append, List.length_singleton]
      omega
    obtain ⟨calls, hcalls, hvisits⟩ :=
      iterateLeaf_spec inv h hc hlength (childCell_aligned hb c)
    refine ⟨calls, hcalls, hvisits.congr (fun _ => Iff.rfl) fun q _ => ?_⟩
    rw [path, List.append_nil]
  | succ branches ih =>
    intro π a b hπ hlen hb
    refine iterateChildren_spec h hπ hlen hb fun c offset hc => ?_
    refine ih hc ?_ (childCell_aligned hb c)
    rw [List.length_append, List.length_singleton]
    omega

variable (inv) in
theorem iterate_spec {k : Nat} {o : TinyOctree Item} (h : Valid k o) :
    ∃ calls, iterate k inv o = some calls ∧
      Visits inv (fun q => PosInBounds k o q) (value k inv o) calls := by
  have hdepth := h.depth
  have hbounds := h.posInBounds_iff
  have haligned : Aligned (k - o.startDepth) o.mask := h.aligned
  by_cases hs : o.startDepth = k
  · have hone := visits_one inv o.mask (value k inv o)
    have hmask : value k inv o o.mask = o.singleItem := by rw [value_single h hs, if_pos rfl]
    refine ⟨_, if_pos hs, ?_⟩
    rw [hmask] at hone
    have hflip : (if o.singleItem ≠ inv then [(o.mask.toPos, o.singleItem)] else []) =
        if o.singleItem = inv then [] else [(o.mask.toPos, o.singleItem)] := by
      split <;> simp_all
    rw [hflip]
    refine hone.congr (fun q => ?_) fun _ _ => rfl
    rw [hbounds, hs, Nat.sub_self, agree_zero]
  · have hlt : o.startDepth < k := lt_of_le_of_ne hdepth hs
    have htree := h.tree hlt
    have hroot : (kind Item).follow o.data [] 0 = some 0 := rfl
    have hvalue : ∀ q, PosInBounds k o q →
        value k inv o q = content inv o.data (path q (k - 1 - o.startDepth)) (octant q 1) := by
      intro q hq
      simp only [value, if_pos hq, if_neg hs]
    by_cases hleaf : o.startDepth = k - 1
    · have hlevels : k - o.startDepth = 1 := by omega
      have hpath : k - 1 - o.startDepth = 0 := by omega
      rw [hlevels] at haligned hbounds
      rw [hpath] at htree hvalue
      obtain ⟨calls, hcalls, hvisits⟩ := iterateLeaf_spec inv htree hroot rfl haligned
      refine ⟨calls, by rw [iterate, if_neg hs, if_pos hleaf, hcalls], ?_⟩
      exact hvisits.congr hbounds fun q hq => hvalue q ((hbounds q).mpr hq)
    · obtain ⟨branches, hbranches⟩ : ∃ branches, branches = k - 2 - o.startDepth := ⟨_, rfl⟩
      have hlevels : k - o.startDepth = branches + 2 := by omega
      have hpath : k - 1 - o.startDepth = branches + 1 := by omega
      rw [hlevels] at haligned hbounds
      rw [hpath] at htree hvalue
      obtain ⟨calls, hcalls, hvisits⟩ :=
        iterateBranch_spec inv htree branches hroot (Nat.zero_add _) haligned
      refine ⟨calls, by rw [iterate, if_neg hs, if_neg hleaf, ← hbranches, hcalls], ?_⟩
      exact hvisits.congr hbounds fun q hq => hvalue q ((hbounds q).mpr hq)

theorem Agree.below {c k : Nat} (h : Agree c p q) (hc : c ≤ k) (hq : q.Below k) : p.Below k := by
  have hcomponent : ∀ {v w : Nat}, v / 2 ^ c = w / 2 ^ c → w < 2 ^ k → v < 2 ^ k := by
    intro v w heq hlt
    obtain ⟨d, rfl⟩ := Nat.exists_eq_add_of_le hc
    rw [Nat.pow_add, Nat.mul_comm, ← Nat.div_lt_iff_lt_mul (Nat.two_pow_pos c)] at hlt ⊢
    rw [heq]
    exact hlt
  exact ⟨hcomponent h.1 hq.x, hcomponent h.2.1 hq.y, hcomponent h.2.2 hq.z⟩

/-- A position in the octree is the one of its cell. -/
theorem toPos_ofPos {k : Nat} {pos : Vector3i} (h : PosInOctree k pos) :
    (Cell.ofPos pos).toPos = pos := by
  obtain ⟨⟨hx, -⟩, ⟨hy, -⟩, hz, -⟩ := h
  rw [Vector3i.ext_iff']
  simp only [Cell.ofPos, Cell.toPos]
  omega

theorem posInOctree_toPos {k : Nat} (h : q.Below k) : PosInOctree k q.toPos := by
  have hpow : ((2 ^ k : Nat) : Int) = 2 ^ k := by simp
  obtain ⟨hx, hy, hz⟩ := h
  simp only [PosInOctree, Cell.toPos]
  omega

/-- The calls of the callback are the positions `Get` finds an item at, each with its item. -/
def CallsAre (k : Nat) (inv : Item) (o : TinyOctree Item) (calls : List (Vector3i × Item)) : Prop :=
  (calls.map Prod.fst).Nodup ∧ ∀ pos v, (pos, v) ∈ calls ↔ get k inv o pos = some v ∧ v ≠ inv

theorem Valid.iterate {k : Nat} {o : TinyOctree Item} (h : Valid k o) :
    ∃ calls, iterate k inv o = some calls ∧ CallsAre k inv o calls := by
  obtain ⟨calls, hcalls, hvisits⟩ := iterate_spec inv h
  refine ⟨calls, hcalls, hvisits.nodup, fun pos v => ?_⟩
  rw [hvisits.mem]
  constructor
  · rintro ⟨q, hq, rfl, hitem, hne⟩
    have hbelow := ((h.posInBounds_iff q).mp hq).below (Nat.sub_le _ _) h.below
    rw [get_eq h (posInOctree_toPos hbelow), ofPos_toPos, hitem]
    exact ⟨rfl, hne⟩
  · rintro ⟨hget, hne⟩
    by_cases hpos : PosInOctree k pos
    · rw [get_eq h hpos] at hget
      have hvalue := Option.some.inj hget
      have hbounds : PosInBounds k o (Cell.ofPos pos) := by
        by_contra hout
        rw [value, if_neg hout] at hvalue
        exact hne hvalue.symm
      exact ⟨_, hbounds, toPos_ofPos hpos, hvalue, hne⟩
    · rw [get, if_neg hpos] at hget
      exact absurd (Option.some.inj hget).symm hne

/-- Iterating over an octree calls the callback once for each position with an item, with that
item, whatever was set in the tree. -/
theorem iterate_exact (inv : Item) (calls : List (Vector3i × Item)) :
    ∃ o, setAll 4 inv (empty 4 inv) calls = some o ∧
      ∃ callbacks, TinyOctree.iterate 4 inv o = some callbacks ∧ CallsAre 4 inv o callbacks := by
  have hk : (kind Item).fullBytes (4 - 1) < 65535 := by
    rw [fullBytes_eq]
    decide
  obtain ⟨o, ho, hv, -⟩ := setAll_spec inv hk calls (valid_empty 4 inv)
  exact ⟨o, ho, hv.iterate⟩

end CosmicArchitect.Util.TinyOctree
