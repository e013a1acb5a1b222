import CosmicArchitect.Library.OffsetTree
import CosmicArchitect.Util.TinyOctree
import Mathlib.Data.Fintype.Prod
import Mathlib.Data.Nat.Bitwise

/-!
# An octree is a finite map

The path of a position is its bits from the highest to the lowest. All positions in bounds
agree in the bits above the root, so a path and the bits of the leaf determine a position.
-/

namespace CosmicArchitect.Util.TinyOctree
open Library Blocks

/-! ### Bits of a position -/

variable {p q : Cell} {c : Nat}

/-- The bits from `c` on are the same. -/
def Agree (c : Nat) (p q : Cell) : Prop :=
  p.x / 2 ^ c = q.x / 2 ^ c ∧ p.y / 2 ^ c = q.y / 2 ^ c ∧ p.z / 2 ^ c = q.z / 2 ^ c

instance : Decidable (Agree c p q) := inferInstanceAs (Decidable (_ ∧ _))

theorem agree_zero : Agree 0 p q ↔ p = q := by
  cases p
  cases q
  simp [Agree]

theorem bit_eq (v c : Nat) : (v &&& 2 ^ c != 0) = decide (v / 2 ^ c % 2 = 1) := by
  rw [Nat.and_two_pow, ← Nat.testBit_eq_decide_div_mod_eq]
  cases v.testBit c <;> simp

theorem half_iff (v w c : Nat) : v / 2 ^ c = w / 2 ^ c ↔
    v / 2 ^ (c + 1) = w / 2 ^ (c + 1) ∧ (v &&& 2 ^ c != 0) = (w &&& 2 ^ c != 0) := by
  rw [bit_eq, bit_eq, decide_eq_decide, Nat.pow_succ, ← Nat.div_div_eq_div_mul,
    ← Nat.div_div_eq_div_mul]
  omega

theorem agree_iff : Agree c p q ↔ Agree (c + 1) p q ∧ octant p (2 ^ c) = octant q (2 ^ c) := by
  simp only [Agree, octant, Prod.mk.injEq, half_iff _ _ c]
  grind

theorem cutOff_eq (v bits : Nat) : cutOff v bits = v / 2 ^ bits * 2 ^ bits := by
  rw [cutOff, Nat.shiftLeft_eq, Nat.shiftRight_eq_div_pow]

theorem cutOff_iff (v w bits : Nat) :
    cutOff v bits = cutOff w bits ↔ v / 2 ^ bits = w / 2 ^ bits := by
  rw [cutOff_eq, cutOff_eq]
  exact Nat.mul_left_inj (Nat.pos_iff_ne_zero.mp (Nat.two_pow_pos bits))

theorem cutOff_div (v bits : Nat) : cutOff v bits / 2 ^ bits = v / 2 ^ bits := by
  rw [cutOff_eq, Nat.mul_div_cancel _ (Nat.two_pow_pos bits)]

/-- The components are below `1 << k_depth`. -/
structure Cell.Below (kDepth : Nat) (p : Cell) : Prop where
  x : p.x < 2 ^ kDepth
  y : p.y < 2 ^ kDepth
  z : p.z < 2 ^ kDepth

theorem agree_of_below {k : Nat} (hp : p.Below k) (hq : q.Below k) : Agree k p q := by
  refine ⟨?_, ?_, ?_⟩
  · rw [Nat.div_eq_of_lt hp.x, Nat.div_eq_of_lt hq.x]
  · rw [Nat.div_eq_of_lt hp.y, Nat.div_eq_of_lt hq.y]
  · rw [Nat.div_eq_of_lt hp.z, Nat.div_eq_of_lt hq.z]

/-- The octants on the way to the leaf of a position, from `levels` levels above it. -/
def path (p : Cell) : Nat → List Octant
  | 0 => []
  | levels + 1 => octant p (2 ^ (levels + 1)) :: path p levels

/-- Positions with the same high bits, path and octant are the same. -/
theorem path_inj {n : Nat} (h : Agree (n + 1) p q) :
    p = q ↔ path p n = path q n ∧ octant p 1 = octant q 1 := by
  induction n with
  | zero =>
    have hbit := agree_iff (c := 0) (p := p) (q := q)
    rw [agree_zero, Nat.pow_zero] at hbit
    rw [hbit]
    simp [path, h]
  | succ n ih =>
    constructor
    · intro hpq
      rw [hpq]
      exact ⟨rfl, rfl⟩
    · intro hpq
      simp only [path, List.cons.injEq] at hpq
      exact (ih (agree_iff.mpr ⟨h, hpq.1.1⟩)).mpr ⟨hpq.1.2, hpq.2⟩

/-! ### The nodes as a tree with relative links -/

variable {Item : Type} {k : Nat} {inv : Item}

@[reducible] def kind (Item : Type) : BlockKind (Node Item) Octant where
  leaf b := match b with
    | .itemNode _ => true
    | .offsetNode _ => false
  link b c := match b with
    | .offsetNode offsets => if offsets c = kInvalidOffset then none else some (offsets c).toNat
    | .itemNode _ => none
  branchSize := sizeofOffsetNode
  leafSize := 64
  branch_pos := by decide
  leaf_pos := by decide
  size := Node.sizeof
  size_eq b := by cases b <;> rfl
  link_leaf := by
    intro b hb c
    cases b with
    | offsetNode offsets => cases hb
    | itemNode items => rfl

theorem fullBytes_eq : (kind Item).fullBytes 3 = 33936 := by
  have hcard : Fintype.card Octant = 8 := rfl
  simp only [BlockKind.fullBytes, hcard, sizeofOffsetNode]

theorem fullBytes_mono (Item : Type) (n : Nat) :
    (kind Item).fullBytes n ≤ (kind Item).fullBytes (n + 1) := by
  simp only [BlockKind.fullBytes]
  have hcard : Fintype.card Octant = 8 := rfl
  rw [hcard]
  omega

theorem getItemNode_eq {data : List (Node Item)} {a : Nat} {items : Octant → Item}
    (h : blockAt Node.sizeof data a = some (.itemNode items)) : getItemNode data a = some items := by
  simp only [getItemNode, h]

theorem getOffsetNode_eq {data : List (Node Item)} {a : Nat} {offsets : Octant → Offset}
    (h : blockAt Node.sizeof data a = some (.offsetNode offsets)) :
    getOffsetNode data a = some offsets := by
  simp only [getOffsetNode, h]

section Tree
variable {data data' : List (Node Item)} {n : Nat} {π ρ : List Octant} {a : Nat}

theorem itemNode_of_path (h : (kind Item).IsTree data n) (hπ : (kind Item).follow data π 0 = some a)
    (hlen : π.length = n) : ∃ items, blockAt Node.sizeof data a = some (.itemNode items) := by
  obtain ⟨b, hb, -, hleaf⟩ := h.block hπ
  cases b with
  | itemNode items => exact ⟨items, hb⟩
  | offsetNode offsets => cases hleaf.mpr hlen

theorem offsetNode_of_path (h : (kind Item).IsTree data n)
    (hπ : (kind Item).follow data π 0 = some a) (hlen : π.length < n) :
    ∃ offsets, blockAt Node.sizeof data a = some (.offsetNode offsets) := by
  obtain ⟨b, hb, -, hleaf⟩ := h.block hπ
  cases b with
  | itemNode items =>
    have hn := hleaf.mp rfl
    omega
  | offsetNode offsets => exact ⟨offsets, hb⟩

/-- The item in a leaf, the invalid item when there is no such leaf. -/
def content (inv : Item) (data : List (Node Item)) (π : List Octant) (c : Octant) : Item :=
  match ((kind Item).follow data π 0).bind (getItemNode data) with
  | some items => items c
  | none => inv

theorem content_none (h : (kind Item).follow data π 0 = none) (c : Octant) :
    content inv data π c = inv := by
  simp only [content, h, Option.bind_none]

theorem content_some (h : (kind Item).follow data π 0 = some a)
    {items : Octant → Item} (hb : blockAt Node.sizeof data a = some (.itemNode items)) (c : Octant) :
    content inv data π c = items c := by
  simp only [content, h, Option.bind_some, getItemNode_eq hb]

theorem linkAt_offsetNode {offsets : Octant → Offset}
    (hb : blockAt Node.sizeof data a = some (.offsetNode offsets)) (c : Octant) :
    (kind Item).linkAt data a c =
      if offsets c = kInvalidOffset then none else some (offsets c).toNat := by
  simp only [BlockKind.linkAt, hb, Option.bind_some]

theorem follow_missing (hπ : (kind Item).follow data π 0 = some a) {c : Octant}
    (hc : (kind Item).linkAt data a c = none) (ρ : List Octant) :
    (kind Item).follow data (π ++ c :: ρ) 0 = none := by
  rw [BlockKind.follow_append, hπ, Option.bind_some]
  simp only [BlockKind.follow, hc, Option.bind_none]

theorem follow_child (hπ : (kind Item).follow data π 0 = some a) {c : Octant} {d : Nat}
    (hc : (kind Item).linkAt data a c = some d) :
    (kind Item).follow data (π ++ [c]) 0 = some (a + d) := by
  rw [BlockKind.follow_snoc, hπ, Option.bind_some, hc, Option.map_some]

theorem getLoop_eq (h : (kind Item).IsTree data n) (p : Cell) (m : Nat) : ∀ {π a},
    (kind Item).follow data π 0 = some a → π.length + m = n →
    getLoop inv p data m (2 ^ m) a = some (content inv data (π ++ path p m) (octant p 1)) := by
  induction m with
  | zero =>
    intro π a hπ hlen
    obtain ⟨items, hitems⟩ := itemNode_of_path h hπ hlen
    rw [path, List.append_nil, content_some hπ hitems]
    simp only [getLoop, getItemNode_eq hitems, Option.map_some, Nat.pow_zero]
  | succ m ih =>
    intro π a hπ hlen
    obtain ⟨offsets, hoffsets⟩ := offsetNode_of_path h hπ (by omega)
    have hlink := linkAt_offsetNode hoffsets (octant p (2 ^ (m + 1)))
    have hshift : 2 ^ (m + 1) >>> 1 = 2 ^ m := by
      rw [Nat.shiftRight_eq_div_pow, Nat.pow_succ, Nat.pow_one, Nat.mul_div_cancel _ (by omega)]
    simp only [getLoop, getOffsetNode_eq hoffsets, hshift]
    by_cases hc : offsets (octant p (2 ^ (m + 1))) = kInvalidOffset
    · rw [if_pos hc] at hlink ⊢
      rw [path, content_none (follow_missing hπ hlink _)]
    · rw [if_neg hc] at hlink ⊢
      rw [ih (follow_child hπ hlink) (by simp; omega), path, List.append_assoc]
      rfl

/-! ### The descent of `Set` -/

theorem setItem_eq {items : Octant → Item}
    (hb : blockAt Node.sizeof data a = some (.itemNode items)) (c : Octant) (v : Item) :
    setItem data a c v =
      some (write Node.sizeof data a (.itemNode (Function.update items c v))) := by
  simp only [setItem, getItemNode_eq hb, Option.map_some]

theorem setOffset_eq {offsets : Octant → Offset}
    (hb : blockAt Node.sizeof data a = some (.offsetNode offsets)) (c : Octant) (v : Offset) :
    setOffset data a c v =
      some (write Node.sizeof data a (.offsetNode (Function.update offsets c v))) := by
  simp only [setOffset, getOffsetNode_eq hb, Option.map_some]

theorem content_write (h : (kind Item).IsTree data n) (hπ : (kind Item).follow data π 0 = some a)
    {items : Octant → Item} (hb : blockAt Node.sizeof data a = some (.itemNode items))
    (c : Octant) (v : Item) :
    (kind Item).IsTree (write Node.sizeof data a (.itemNode (Function.update items c v))) n ∧
    ∀ ρ d, content inv (write Node.sizeof data a (.itemNode (Function.update items c v))) ρ d =
      if ρ = π ∧ d = c then v else content inv data ρ d := by
  have htree := BlockKind.isTree_write h hb (.itemNode (Function.update items c v)) rfl rfl
  have hfollow := BlockKind.follow_congr (BlockKind.linkAt_write (K := kind Item) hb
    (.itemNode (Function.update items c v)) rfl rfl)
  have hblock := blockAt_write (v := .itemNode (Function.update items c v)) data hb rfl
  refine ⟨htree, fun ρ d => ?_⟩
  cases hρ : (kind Item).follow data ρ 0 with
  | none =>
    have hne : ρ ≠ π := by
      intro hc
      rw [hc, hπ] at hρ
      cases hρ
    rw [content_none ((hfollow ρ 0).trans hρ), content_none hρ, if_neg fun hc => hne hc.1]
  | some x =>
    by_cases hx : x = a
    · rw [hx] at hρ
      have hρπ : ρ = π := h.inj hρ hπ
      have hnew : blockAt Node.sizeof (write Node.sizeof data a
          (.itemNode (Function.update items c v))) a = some (.itemNode (Function.update items c v)) := by
        rw [hblock, if_pos rfl]
      rw [content_some ((hfollow ρ 0).trans hρ) hnew, content_some hρ hb, Function.update_apply]
      simp only [hρπ, true_and]
    · have hne : ρ ≠ π := by
        intro hc
        rw [hc, hπ] at hρ
        exact hx (Option.some.inj hρ).symm
      rw [if_neg fun hc => hne hc.1]
      have hsame : getItemNode (write Node.sizeof data a
          (.itemNode (Function.update items c v))) x = getItemNode data x := by
        simp only [getItemNode, hblock, if_neg hx]
      simp only [content, hfollow, hρ, Option.bind_some, hsame]

/-- An offset that fits: the distance of two addresses in a buffer below 64 KiB. -/
theorem emplace_offset {offset : Offset} {size : Nat} (hsize : size < 65535)
    (hlt : offset.toNat < size) :
    (UInt16.ofNat size - offset).toNat = size - offset.toNat ∧
      UInt16.ofNat size - offset ≠ kInvalidOffset ∧
      (offset + (UInt16.ofNat size - offset)).toNat = size := by
  have hof : (UInt16.ofNat size).toNat = size := by
    rw [UInt16.toNat_ofNat', Nat.mod_eq_of_lt]
    omega
  have hle : offset ≤ UInt16.ofNat size := by
    rw [UInt16.le_iff_toNat_le, hof]
    omega
  have hsub : (UInt16.ofNat size - offset).toNat = size - offset.toNat := by
    rw [UInt16.toNat_sub_of_le _ _ hle, hof]
  refine ⟨hsub, ?_, ?_⟩
  · intro hc
    have hinv : (UInt16.ofNat size - offset).toNat = 65535 := by
      rw [hc]
      rfl
    omega
  · rw [UInt16.toNat_add, hsub]
    omega

theorem blockAt_emplace (data : List (Node Item)) (node : Node Item) (x : Nat) :
    blockAt Node.sizeof (data ++ [node]) x =
      if x = bytes Node.sizeof data then some node else blockAt Node.sizeof data x :=
  blockAt_append (kind Item).size_pos data node x

variable (inv) in
theorem content_emplace (h : (kind Item).IsTree data n) (hπ : (kind Item).follow data π 0 = some a)
    {offsets : Octant → Offset} (hb : blockAt Node.sizeof data a = some (.offsetNode offsets))
    (hlen : π.length < n) {c : Octant} (hc : offsets c = kInvalidOffset) {offset : Offset}
    (hoff : offset.toNat = bytes Node.sizeof data - a) (hvalid : offset ≠ kInvalidOffset)
    {node : Node Item}
    (hnode : node = if π.length + 1 = n then newItemNode inv else newOffsetNode)
    (hdata : data' = write Node.sizeof (data ++ [node]) a
      (.offsetNode (Function.update offsets c offset))) :
    (kind Item).IsTree data' n ∧
    (kind Item).follow data' (π ++ [c]) 0 = some (bytes Node.sizeof data) ∧
    ∀ ρ d, content inv data' ρ d = content inv data ρ d := by
  have hlink : (kind Item).link (.offsetNode offsets) c = none := if_pos hc
  have hlink' : ∀ d, (kind Item).link (.offsetNode (Function.update offsets c offset)) d =
      if d = c then some (bytes Node.sizeof data - a) else (kind Item).link (.offsetNode offsets) d := by
    intro d
    simp only [Function.update_apply]
    by_cases hd : d = c
    · rw [if_pos hd, if_pos hd, if_neg hvalid, hoff]
    · rw [if_neg hd, if_neg hd]
  have hempty : ∀ d, (kind Item).link node d = none := by
    intro d
    rw [hnode]
    split
    · rfl
    · simp [newOffsetNode]
  have hleaf : (kind Item).leaf node = true ↔ π.length + 1 = n := by
    rw [hnode]
    split
    · next hlast => exact ⟨fun _ => hlast, fun _ => rfl⟩
    · next hlast => exact ⟨fun hf => (by cases hf), fun hl => absurd hl hlast⟩
  have htree := BlockKind.isTree_emplace (.offsetNode (Function.update offsets c offset))
    h hπ hb hlink rfl hlink' hempty hlen hleaf
  have hfollow := BlockKind.follow_emplace (.offsetNode (Function.update offsets c offset))
    h hπ hb hlink rfl hlink' hempty
  rw [← hdata] at htree hfollow
  have halt : a < bytes Node.sizeof data := h.lt_bytes hπ
  have hb1 : blockAt Node.sizeof (data ++ [node]) a = some (.offsetNode offsets) := by
    rw [blockAt_emplace, if_neg (by omega), hb]
  have hblock : ∀ x, blockAt Node.sizeof data' x =
      if x = a then some (.offsetNode (Function.update offsets c offset))
      else if x = bytes Node.sizeof data then some node else blockAt Node.sizeof data x := by
    intro x
    rw [hdata, blockAt_write (v := .offsetNode (Function.update offsets c offset)) _ hb1 rfl,
      blockAt_emplace]
  refine ⟨htree, by rw [hfollow, if_pos rfl], fun ρ d => ?_⟩
  by_cases hρ : ρ = π ++ [c]
  · -- the new node itself
    have hnone : (kind Item).follow data ρ 0 = none := by
      rw [hρ]
      exact follow_missing hπ ((linkAt_offsetNode hb c).trans (if_pos hc)) []
    rw [content_none hnone]
    simp only [content, hfollow, if_pos hρ, Option.bind_some, getItemNode, hblock,
      if_neg (show bytes Node.sizeof data ≠ a by omega), if_true, hnode]
    by_cases hlast : π.length + 1 = n
    · rw [if_pos hlast]
      rfl
    · rw [if_neg hlast]
      rfl
  · cases hx : (kind Item).follow data ρ 0 with
    | none => rw [content_none hx, content_none (by rw [hfollow, if_neg hρ, hx])]
    | some x =>
      have hxlt : x < bytes Node.sizeof data := h.lt_bytes hx
      have hsame : getItemNode data' x = getItemNode data x := by
        simp only [getItemNode, hblock]
        by_cases hxa : x = a
        · simp only [hxa, if_true, hb]
        · simp only [if_neg hxa, if_neg (show x ≠ bytes Node.sizeof data by omega)]
      simp only [content, hfollow, if_neg hρ, hx, Option.bind_some, hsame]

variable (inv) in
theorem setLoop_spec [DecidableEq Item] (hn : (kind Item).fullBytes n < 65535) (p : Cell)
    (value : Item) (m : Nat) : ∀ (π) (offset : Offset) {data}, (kind Item).IsTree data n →
    (kind Item).follow data π 0 = some offset.toNat → π.length + m = n →
    ∃ data', setLoop inv p value m (2 ^ m) offset data = some data' ∧
      (kind Item).IsTree data' n ∧ ∀ ρ d, content inv data' ρ d =
        if ρ = π ++ path p m ∧ d = octant p 1 then value else content inv data ρ d := by
  induction m with
  | zero =>
    intro π offset data h hπ hlen
    obtain ⟨items, hitems⟩ := itemNode_of_path h hπ hlen
    refine ⟨_, setItem_eq hitems _ value, ?_⟩
    simp only [path, List.append_nil, Nat.pow_zero]
    exact content_write h hπ hitems (octant p 1) value
  | succ m ih =>
    intro π offset data h hπ hlen
    obtain ⟨offsets, hoffsets⟩ := offsetNode_of_path h hπ (by omega)
    have hlink := linkAt_offsetNode hoffsets (octant p (2 ^ (m + 1)))
    have hshift : 2 ^ (m + 1) >>> 1 = 2 ^ m := by
      rw [Nat.shiftRight_eq_div_pow, Nat.pow_succ, Nat.pow_one, Nat.mul_div_cancel _ (by omega)]
    have hbytes := h.bytes_le
    have hpath : π ++ path p (m + 1) = π ++ [octant p (2 ^ (m + 1))] ++ path p m := by
      rw [path, List.append_assoc]
      rfl
    rw [hpath]
    simp only [setLoop, getOffsetNode_eq hoffsets, hshift]
    by_cases hc : offsets (octant p (2 ^ (m + 1))) = kInvalidOffset
    · rw [if_pos hc] at hlink ⊢
      by_cases hv : value = inv
      · -- nothing is stored there, and nothing has to be
        refine ⟨data, if_pos hv, h, fun ρ d => ?_⟩
        split
        · next heq =>
          rw [heq.1, List.append_assoc, hv]
          exact content_none (follow_missing hπ hlink _) d
        · rfl
      · obtain ⟨hdist, hvalid, hsum⟩ := emplace_offset (lt_of_le_of_lt hbytes hn) (h.lt_bytes hπ)
        have hnode : (if m = 0 then newItemNode inv else newOffsetNode : Node Item) =
            if π.length + 1 = n then newItemNode inv else newOffsetNode := by
          have hiff : m = 0 ↔ π.length + 1 = n := by omega
          simp only [hiff]
        obtain ⟨htree, hchild, hsame⟩ := content_emplace inv h hπ hoffsets (by omega) hc
          hdist hvalid hnode rfl
        have hmid : blockAt Node.sizeof (data ++ [if m = 0 then newItemNode inv else newOffsetNode])
            offset.toNat = some (.offsetNode offsets) := by
          have halt : offset.toNat < bytes Node.sizeof data := h.lt_bytes hπ
          rw [blockAt_emplace, if_neg (by omega), hoffsets]
        obtain ⟨data', hset, htree', hcontent⟩ :=
          ih _ _ htree (hchild.trans (congrArg some hsum.symm)) (by simp; omega)
        refine ⟨data', ?_, htree', fun ρ d => ?_⟩
        · rw [if_neg hv]
          simp only [emplaceNode, setOffset_eq hmid, Option.bind_some]
          exact hset
        · rw [hcontent, hsame]
    · rw [if_neg hc] at hlink ⊢
      have hchild := follow_child hπ hlink
      have hlt := h.lt_bytes hchild
      have hadd : (offset + offsets (octant p (2 ^ (m + 1)))).toNat =
          offset.toNat + (offsets (octant p (2 ^ (m + 1)))).toNat := by
        rw [UInt16.toNat_add]
        omega
      rw [← hadd] at hchild
      exact ih _ _ h hchild (by simp; omega)

end Tree

/-! ### The octree as a map -/

section Octree
variable {o o' : TinyOctree Item}

/-- What an octree stores at a cell. -/
def value (k : Nat) (inv : Item) (o : TinyOctree Item) (q : Cell) : Item :=
  if PosInBounds k o q then
    if o.startDepth = k then o.singleItem
    else content inv o.data (path q (k - 1 - o.startDepth)) (octant q 1)
  else inv

structure Valid (k : Nat) (o : TinyOctree Item) : Prop where
  depth : o.startDepth ≤ k
  below : o.mask.Below k
  aligned : PosInBounds k o o.mask
  single : o.startDepth = k → o.data = []
  tree : o.startDepth < k → (kind Item).IsTree o.data (k - 1 - o.startDepth)

theorem Valid.posInBounds_iff (h : Valid k o) (q : Cell) :
    PosInBounds k o q ↔ Agree (k - o.startDepth) q o.mask := by
  obtain ⟨hx, hy, hz⟩ := h.aligned
  unfold PosInBounds Agree
  rw [← cutOff_iff, ← cutOff_iff, ← cutOff_iff, hx, hy, hz]

theorem start_bit (k s : Nat) : 1 <<< (k - s - 1) = 2 ^ (k - 1 - s) := by
  rw [Nat.one_shiftLeft]
  congr 1
  omega

theorem below_of_posInOctree {pos : Vector3i} (h : PosInOctree k pos) : (Cell.ofPos pos).Below k := by
  obtain ⟨⟨hx, hx'⟩, ⟨hy, hy'⟩, hz, hz'⟩ := h
  have hpow : ((2 ^ k : Nat) : Int) = 2 ^ k := by simp
  refine ⟨?_, ?_, ?_⟩
  · show pos.x.toNat < 2 ^ k
    omega
  · show pos.y.toNat < 2 ^ k
    omega
  · show pos.z.toNat < 2 ^ k
    omega

theorem get_eq (h : Valid k o) {pos : Vector3i} (hpos : PosInOctree k pos) :
    get k inv o pos = some (value k inv o (Cell.ofPos pos)) := by
  simp only [get, if_pos hpos, value]
  by_cases hb : PosInBounds k o (Cell.ofPos pos)
  · simp only [if_pos hb]
    by_cases hs : o.startDepth = k
    · simp only [if_pos hs]
    · have hlt : o.startDepth < k := lt_of_le_of_ne h.depth hs
      simp only [if_neg hs, start_bit]
      have hroot : (kind Item).follow o.data [] 0 = some 0 := rfl
      exact getLoop_eq (h.tree hlt) (Cell.ofPos pos) _ hroot (Nat.zero_add _)
  · simp only [if_neg hb]

theorem posInBounds_root (h : Valid k o) (hs : 0 < o.startDepth) {data : List (Node Item)}
    (ho : o' = { o with
      startDepth := o.startDepth - 1
      mask := ⟨cutOff o.mask.x (k - (o.startDepth - 1)), cutOff o.mask.y (k - (o.startDepth - 1)),
        cutOff o.mask.z (k - (o.startDepth - 1))⟩
      data := data }) (q : Cell) :
    PosInBounds k o' q ↔ Agree (k - o.startDepth + 1) q o.mask := by
  have hdepth := h.depth
  have hcut : k - (o.startDepth - 1) = k - o.startDepth + 1 := by omega
  simp only [ho, PosInBounds, cutOff_iff, hcut, Agree]

theorem valid_root (h : Valid k o) (hs : 0 < o.startDepth) {data : List (Node Item)}
    (ho : o' = { o with
      startDepth := o.startDepth - 1
      mask := ⟨cutOff o.mask.x (k - (o.startDepth - 1)), cutOff o.mask.y (k - (o.startDepth - 1)),
        cutOff o.mask.z (k - (o.startDepth - 1))⟩
      data := data })
    (htree : (kind Item).IsTree data (k - o.startDepth)) : Valid k o' := by
  have hdepth := h.depth
  have hle : ∀ v bits, cutOff v bits ≤ v := by
    intro v bits
    rw [cutOff_eq]
    exact Nat.div_mul_le_self v (2 ^ bits)
  refine ⟨?_, ⟨?_, ?_, ?_⟩, ?_, ?_, ?_⟩
  · rw [ho]
    show o.startDepth - 1 ≤ k
    omega
  · rw [ho]
    exact lt_of_le_of_lt (hle _ _) h.below.x
  · rw [ho]
    exact lt_of_le_of_lt (hle _ _) h.below.y
  · rw [ho]
    exact lt_of_le_of_lt (hle _ _) h.below.z
  · rw [posInBounds_root h hs ho, ho]
    have hcut : k - (o.startDepth - 1) = k - o.startDepth + 1 := by omega
    exact ⟨by rw [hcut, cutOff_div], by rw [hcut, cutOff_div], by rw [hcut, cutOff_div]⟩
  · rw [ho]
    show o.startDepth - 1 = k → data = []
    omega
  · intro _
    rw [ho]
    show (kind Item).IsTree data (k - 1 - (o.startDepth - 1))
    have hlevels : k - 1 - (o.startDepth - 1) = k - o.startDepth := by omega
    rw [hlevels]
    exact htree

/-- A position in the bounds with a new root is in the old ones when its octant in the root is
theirs. -/
theorem Valid.posInBounds_octant (h : Valid k o) (q : Cell) : PosInBounds k o q ↔
    Agree (k - o.startDepth + 1) q o.mask ∧
      octant q (2 ^ (k - o.startDepth)) = octant o.mask (2 ^ (k - o.startDepth)) := by
  rw [h.posInBounds_iff, agree_iff]

variable (inv) in
/-- The single item moves into a leaf. -/
theorem addNewRoot_single (h : Valid k o) (hs : 0 < o.startDepth) (hk : o.startDepth = k) :
    ∃ o', addNewRoot k inv o = some o' ∧ Valid k o' ∧ o'.startDepth = o.startDepth - 1 ∧
      ∀ q, value k inv o' q = value k inv o q := by
  have hlast : o.startDepth - 1 = k - 1 := by omega
  have hzero : k - o.startDepth = 0 := by omega
  obtain ⟨node, hnode⟩ : ∃ node : Node Item, node = .itemNode
      (Function.update (fun _ => inv) (octant o.mask 1) o.singleItem) := ⟨_, rfl⟩
  have hroot : addNewRoot k inv o = some { o with
      startDepth := o.startDepth - 1
      mask := ⟨cutOff o.mask.x (k - (o.startDepth - 1)),
        cutOff o.mask.y (k - (o.startDepth - 1)), cutOff o.mask.z (k - (o.startDepth - 1))⟩
      data := [node] } := by
    simp only [addNewRoot, if_pos hlast, h.single hk, emplaceNode, List.nil_append, hnode]
    rfl
  have htree : (kind Item).IsTree [node] (k - o.startDepth) := by
    rw [hzero]
    exact BlockKind.isTree_leaf (by rw [hnode])
  refine ⟨_, hroot, valid_root h hs rfl htree, rfl, fun q => ?_⟩
  have hlevels : k - 1 - (o.startDepth - 1) = 0 := by omega
  have hcontent : content inv [node] [] (octant q 1) =
      if octant q 1 = octant o.mask 1 then o.singleItem else inv := by
    have hitems : blockAt Node.sizeof [node] 0 = some (.itemNode
        (Function.update (fun _ => inv) (octant o.mask 1) o.singleItem)) := by
      rw [hnode]
      rfl
    rw [content_some rfl hitems, Function.update_apply]
  have hbit : octant q (2 ^ (k - o.startDepth)) = octant q 1 ∧
      octant o.mask (2 ^ (k - o.startDepth)) = octant o.mask 1 := by
    rw [hzero, Nat.pow_zero]
    exact ⟨rfl, rfl⟩
  have hne : o.startDepth - 1 ≠ k := by omega
  simp only [value, posInBounds_root h hs rfl, h.posInBounds_octant, if_pos hk, if_neg hne, hlevels, path,
    hcontent, hbit.1, hbit.2]
  by_cases hbound : Agree (k - o.startDepth + 1) q o.mask
  · simp only [hbound, true_and, if_true]
  · simp only [hbound, false_and, if_false]

variable (inv) in
/-- An offset node is put in front of the old root. -/
theorem addNewRoot_offset (h : Valid k o) (hs : 0 < o.startDepth) (hk : o.startDepth ≠ k) :
    ∃ o', addNewRoot k inv o = some o' ∧ Valid k o' ∧ o'.startDepth = o.startDepth - 1 ∧
      ∀ q, value k inv o' q = value k inv o q := by
  have hcut : k - (o.startDepth - 1) - 1 = k - o.startDepth := by omega
  have hlt : o.startDepth < k := lt_of_le_of_ne h.depth hk
  have hlast : o.startDepth - 1 ≠ k - 1 := by omega
  obtain ⟨c₀, hc₀⟩ : ∃ c₀, octant o.mask (2 ^ (k - o.startDepth)) = c₀ := ⟨_, rfl⟩
  obtain ⟨node, hnode⟩ : ∃ node : Node Item, node = .offsetNode
      (Function.update (fun _ => kInvalidOffset) c₀ (UInt16.ofNat sizeofOffsetNode)) := ⟨_, rfl⟩
  have hroot : addNewRoot k inv o = some { o with
      startDepth := o.startDepth - 1
      mask := ⟨cutOff o.mask.x (k - (o.startDepth - 1)),
        cutOff o.mask.y (k - (o.startDepth - 1)), cutOff o.mask.z (k - (o.startDepth - 1))⟩
      data := node :: o.data } := by
    simp only [addNewRoot, if_neg hlast, hcut, Nat.one_shiftLeft, hc₀, hnode]
    rfl
  have hlink : ∀ c, (kind Item).link node c =
      if c = c₀ then some ((kind Item).size node) else none := by
    intro c
    simp only [hnode, Function.update_apply]
    by_cases hc : c = c₀
    · simp only [if_pos hc]
      rfl
    · simp only [if_neg hc, if_true]
  have hleaf : (kind Item).leaf node = false := by rw [hnode]
  have hlevels : k - o.startDepth = k - 1 - o.startDepth + 1 := by omega
  have htree : (kind Item).IsTree (node :: o.data) (k - o.startDepth) := by
    rw [hlevels]
    exact BlockKind.isTree_root hlink hleaf (h.tree hlt)
  refine ⟨_, hroot, valid_root h hs rfl htree, rfl, fun q => ?_⟩
  have hpath : path q (k - 1 - (o.startDepth - 1)) =
      octant q (2 ^ (k - o.startDepth)) :: path q (k - 1 - o.startDepth) := by
    have heq : k - 1 - (o.startDepth - 1) = k - 1 - o.startDepth + 1 := by omega
    rw [heq, path, ← hlevels]
  have hcontent : content inv (node :: o.data)
      (octant q (2 ^ (k - o.startDepth)) :: path q (k - 1 - o.startDepth)) (octant q 1) =
      if octant q (2 ^ (k - o.startDepth)) = c₀ then
        content inv o.data (path q (k - 1 - o.startDepth)) (octant q 1) else inv := by
    have hfollow := BlockKind.follow_root hlink o.data (octant q (2 ^ (k - o.startDepth)))
      (path q (k - 1 - o.startDepth))
    by_cases hc : octant q (2 ^ (k - o.startDepth)) = c₀
    · rw [if_pos hc] at hfollow ⊢
      have hshift : ∀ x, getItemNode (node :: o.data) (Node.sizeof node + x) =
          getItemNode o.data x := by
        intro x
        simp only [getItemNode, blockAt_cons (kind Item).size_pos]
      simp only [content, hfollow]
      cases (kind Item).follow o.data (path q (k - 1 - o.startDepth)) 0 with
      | none => rfl
      | some x => simp only [Option.map_some, Option.bind_some, hshift]
    · rw [if_neg hc] at hfollow ⊢
      exact content_none hfollow _
  have hne : o.startDepth - 1 ≠ k := by omega
  simp only [value, posInBounds_root h hs rfl, h.posInBounds_octant, if_neg hk, if_neg hne, hpath, hcontent, hc₀]
  by_cases hbound : Agree (k - o.startDepth + 1) q o.mask
  · simp only [hbound, true_and, if_true]
  · simp only [hbound, false_and, if_false]

variable (inv) in
/-- `AddNewRoot` keeps what is stored. -/
theorem addNewRoot_spec (h : Valid k o) (hs : 0 < o.startDepth) :
    ∃ o', addNewRoot k inv o = some o' ∧ Valid k o' ∧ o'.startDepth = o.startDepth - 1 ∧
      ∀ q, value k inv o' q = value k inv o q := by
  by_cases hk : o.startDepth = k
  · exact addNewRoot_single inv h hs hk
  · exact addNewRoot_offset inv h hs hk

variable (inv) in
/-- The loop around `AddNewRoot` ends with the position in bounds. -/
theorem addRoots_spec (hp : p.Below k) (depth : Nat) : ∀ {o : TinyOctree Item}, Valid k o →
    o.startDepth = depth →
    ∃ o', addRoots k inv p depth o = some o' ∧ Valid k o' ∧ PosInBounds k o' p ∧
      ∀ q, value k inv o' q = value k inv o q := by
  induction depth with
  | zero =>
    intro o h hd
    have hb : PosInBounds k o p := by
      rw [h.posInBounds_iff, hd, Nat.sub_zero]
      exact agree_of_below hp h.below
    exact ⟨o, by rw [addRoots, if_pos hb], h, hb, fun _ => rfl⟩
  | succ depth ih =>
    intro o h hd
    by_cases hb : PosInBounds k o p
    · exact ⟨o, by rw [addRoots, if_pos hb], h, hb, fun _ => rfl⟩
    · obtain ⟨o1, ho1, hv1, hd1, hval1⟩ := addNewRoot_spec inv h (by omega)
      obtain ⟨o', ho', hv', hb', hval'⟩ := ih hv1 (by omega)
      refine ⟨o', ?_, hv', hb', fun q => (hval' q).trans (hval1 q)⟩
      rw [addRoots, if_neg hb, ho1, Option.bind_some]
      exact ho'

theorem value_single (h : Valid k o) (hs : o.startDepth = k) (q : Cell) :
    value k inv o q = if q = o.mask then o.singleItem else inv := by
  have hb := h.posInBounds_iff q
  rw [hs, Nat.sub_self, agree_zero] at hb
  simp only [value, hb, if_pos hs]

theorem valid_single (h : Valid k o) (hs : o.startDepth = k) {mask : Cell} (hm : mask.Below k)
    (v : Item) : Valid k { o with singleItem := v, mask := mask } := by
  refine ⟨h.depth, hm, ?_, h.single, ?_⟩
  · simp only [PosInBounds, hs, Nat.sub_self, cutOff_eq, Nat.pow_zero, Nat.div_one, Nat.mul_one]
    exact ⟨trivial, trivial, trivial⟩
  · intro hlt
    exact h.tree hlt

theorem fullBytes_le (Item : Type) {n m : Nat} (h : n ≤ m) :
    (kind Item).fullBytes n ≤ (kind Item).fullBytes m :=
  monotone_nat_of_le_succ (fullBytes_mono Item) h

variable [DecidableEq Item]

variable (inv) in
/-- `Set` changes the value of its cell and nothing else. -/
theorem set_spec (hk : (kind Item).fullBytes (k - 1) < 65535) (h : Valid k o) {pos : Vector3i}
    (hpos : PosInOctree k pos) (v : Item) :
    ∃ o', set k inv o pos v = some o' ∧ Valid k o' ∧
      ∀ q, value k inv o' q = if q = Cell.ofPos pos then v else value k inv o q := by
  have hp := below_of_posInOctree hpos
  generalize hpe : Cell.ofPos pos = p at hp
  simp only [set, if_pos hpos, hpe]
  by_cases h1 : o.startDepth = k ∧ o.singleItem = inv
  · have hv := valid_single h h1.1 hp v
    refine ⟨_, if_pos h1, hv, fun q => ?_⟩
    rw [value_single hv h1.1, value_single h h1.1, h1.2, ite_self]
  rw [if_neg h1]
  by_cases h2 : o.startDepth = k ∧ v = inv ∧ PosInBounds k o p
  · obtain ⟨hs, hvi, hb⟩ := h2
    have hzero : ({} : Cell).Below k := ⟨Nat.two_pow_pos k, Nat.two_pow_pos k, Nat.two_pow_pos k⟩
    have hv := valid_single h hs hzero inv
    have hmask : p = o.mask := by
      have hagree := (h.posInBounds_iff p).mp hb
      rw [hs, Nat.sub_self, agree_zero] at hagree
      exact hagree
    refine ⟨_, if_pos ⟨hs, hvi, hb⟩, hv, fun q => ?_⟩
    rw [value_single hv hs, value_single h hs, hvi, hmask, ite_self]
    by_cases hq : q = o.mask
    · rw [if_pos hq]
    · rw [if_neg hq, if_neg hq]
  rw [if_neg h2]
  obtain ⟨o1, ho1, hv1, hb1, hval1⟩ := addRoots_spec inv hp o.startDepth h rfl
  rw [ho1, Option.bind_some]
  by_cases hs : o1.startDepth = k
  · -- the single item is overwritten
    have hmask : p = o1.mask := by
      have hagree := (hv1.posInBounds_iff p).mp hb1
      rw [hs, Nat.sub_self, agree_zero] at hagree
      exact hagree
    have hv := valid_single hv1 hs hv1.below v
    refine ⟨_, if_pos hs, hv, fun q => ?_⟩
    rw [← hval1, value_single hv hs, value_single hv1 hs, hmask]
    by_cases hq : q = o1.mask
    · rw [if_pos hq, if_pos hq]
    · rw [if_neg hq, if_neg hq, if_neg hq]
  · have hlt : o1.startDepth < k := lt_of_le_of_ne hv1.depth hs
    have hfull : (kind Item).fullBytes (k - 1 - o1.startDepth) < 65535 :=
      lt_of_le_of_lt (fullBytes_le Item (Nat.sub_le _ _)) hk
    obtain ⟨data', hset, htree, hcontent⟩ := setLoop_spec inv hfull
      p v (k - 1 - o1.startDepth) [] 0 (hv1.tree hlt) rfl (Nat.zero_add _)
    refine ⟨{ o1 with data := data' }, ?_, ?_, fun q => ?_⟩
    · rw [if_neg hs, start_bit, hset, Option.map_some]
    · exact ⟨hv1.depth, hv1.below, hv1.aligned, fun hc => absurd hc hs, fun _ => htree⟩
    · rw [← hval1]
      have hbounds : ∀ q, PosInBounds k { o1 with data := data' } q ↔ PosInBounds k o1 q :=
        fun _ => Iff.rfl
      simp only [value, hbounds, if_neg hs, hcontent, List.nil_append]
      by_cases hq : PosInBounds k o1 q
      · -- in bounds the path and the octant of the leaf tell `p` from the others
        have hqm := (hv1.posInBounds_iff q).mp hq
        have hpm := (hv1.posInBounds_iff p).mp hb1
        have hagree : Agree (k - 1 - o1.startDepth + 1) q p := by
          have heq : k - o1.startDepth = k - 1 - o1.startDepth + 1 := by omega
          rw [heq] at hqm hpm
          exact ⟨hqm.1.trans hpm.1.symm, hqm.2.1.trans hpm.2.1.symm, hqm.2.2.trans hpm.2.2.symm⟩
        simp only [if_pos hq, path_inj hagree]
      · have hne : q ≠ p := by
          intro hc
          rw [hc] at hq
          exact hq hb1
        simp only [if_neg hq, if_neg hne]

omit [DecidableEq Item] in
theorem valid_empty (k : Nat) (inv : Item) : Valid k (empty k inv) := by
  have hb : PosInBounds k (empty k inv) {} := by
    refine ⟨?_, ?_, ?_⟩ <;> simp [cutOff_eq, empty]
  exact ⟨Nat.le_refl k, ⟨Nat.two_pow_pos k, Nat.two_pow_pos k, Nat.two_pow_pos k⟩, hb,
    fun _ => rfl, fun hlt => absurd hlt (Nat.lt_irrefl k)⟩

theorem ofPos_inj {pos pos' : Vector3i} (h : PosInOctree k pos) (h' : PosInOctree k pos') :
    Cell.ofPos pos = Cell.ofPos pos' ↔ pos = pos' := by
  obtain ⟨⟨hx, -⟩, ⟨hy, -⟩, hz, -⟩ := h
  obtain ⟨⟨hx', -⟩, ⟨hy', -⟩, hz', -⟩ := h'
  rw [Vector3i.ext_iff']
  simp only [Cell.ofPos, Cell.mk.injEq]
  omega

/-- The value of the last call at `pos`, `last` when there is none. -/
def lastSet (last : Item) (calls : List (Vector3i × Item)) (pos : Vector3i) : Item :=
  calls.foldl (fun last call => if call.1 = pos then call.2 else last) last

variable (inv) in
theorem setAll_spec (hk : (kind Item).fullBytes (k - 1) < 65535) (calls : List (Vector3i × Item)) :
    ∀ {o : TinyOctree Item}, Valid k o → ∃ o', setAll k inv o calls = some o' ∧ Valid k o' ∧
      ∀ pos, PosInOctree k pos → value k inv o' (Cell.ofPos pos) =
        lastSet (value k inv o (Cell.ofPos pos)) calls pos := by
  induction calls with
  | nil =>
    intro o h
    exact ⟨o, rfl, h, fun _ _ => rfl⟩
  | cons call calls ih =>
    intro o h
    obtain ⟨pos', v⟩ := call
    by_cases hin : PosInOctree k pos'
    · obtain ⟨o1, ho1, hv1, hval1⟩ := set_spec inv hk h hin v
      obtain ⟨o', ho', hv', hval'⟩ := ih hv1
      refine ⟨o', by rw [setAll, ho1, Option.bind_some, ho'], hv', fun pos hpos => ?_⟩
      rw [hval' pos hpos, hval1]
      have hiff : Cell.ofPos pos = Cell.ofPos pos' ↔ pos' = pos :=
        (ofPos_inj hpos hin).trans eq_comm
      simp only [lastSet, List.foldl_cons, hiff]
    · have hset : set k inv o pos' v = some o := by simp only [set, if_neg hin]
      obtain ⟨o', ho', hv', hval'⟩ := ih h
      refine ⟨o', by rw [setAll, hset, Option.bind_some, ho'], hv', fun pos hpos => ?_⟩
      have hne : pos' ≠ pos := by
        intro hc
        rw [hc] at hin
        exact hin hpos
      rw [hval' pos hpos]
      simp only [lastSet, List.foldl_cons, if_neg hne]

end Octree

/- All nodes lie below `k_invalid_offset`, so that no offset is cut off or taken for the
   invalid one, and every other offset leads to a node in `m_data`. -/
structure OffsetsFit (o : TinyOctree Item) : Prop where
  size : bytes Node.sizeof o.data ≤ 33936 ∧ 33936 < kInvalidOffset.toNat
  leads : ∀ a offsets c, blockAt Node.sizeof o.data a = some (.offsetNode offsets) →
    offsets c ≠ kInvalidOffset →
    ∃ node, blockAt Node.sizeof o.data (a + (offsets c).toNat) = some node

theorem Valid.offsetsFit {o : TinyOctree Item} (h : Valid 4 o) : OffsetsFit o := by
  by_cases hs : o.startDepth = 4
  · rw [show OffsetsFit o ↔ OffsetsFit { o with data := [] } by rw [← h.single hs]]
    refine ⟨⟨Nat.zero_le _, by decide⟩, ?_⟩
    intro a offsets c hb
    cases hb
  · have htree := h.tree (lt_of_le_of_ne h.depth hs)
    refine ⟨⟨?_, by decide⟩, ?_⟩
    · have hle := htree.bytes_le.trans (fullBytes_le Item (Nat.sub_le 3 o.startDepth))
      rw [fullBytes_eq] at hle
      exact hle
    · intro a offsets c hb hc
      obtain ⟨π, hπ⟩ := htree.reach hb
      have hlink := linkAt_offsetNode hb c
      rw [if_neg hc] at hlink
      obtain ⟨b, hchild, -, -⟩ := htree.block (follow_child hπ hlink)
      exact ⟨b, hchild⟩

/-- The octree of a voxel node is a finite map, whatever is set in it. -/
theorem tinyOctree_isMap [DecidableEq Item] (inv : Item) (calls : List (Vector3i × Item)) :
    ∃ o, setAll 4 inv (empty 4 inv) calls = some o ∧
      (∀ pos, PosInOctree 4 pos → get 4 inv o pos = some (lastSet inv calls pos)) ∧
      (∀ pos v, ¬ PosInOctree 4 pos → get 4 inv o pos = some inv ∧ set 4 inv o pos v = some o) ∧
      OffsetsFit o := by
  have hk : (kind Item).fullBytes (4 - 1) < 65535 := by
    rw [fullBytes_eq]
    decide
  obtain ⟨o, ho, hv, hval⟩ := setAll_spec inv hk calls (valid_empty 4 inv)
  refine ⟨o, ho, ?_, ?_, hv.offsetsFit⟩
  · intro pos hpos
    have hempty : value 4 inv (empty 4 inv) (Cell.ofPos pos) = inv := by
      rw [value_single (valid_empty 4 inv) rfl]
      exact ite_self inv
    rw [get_eq hv hpos, hval pos hpos, hempty]
  · intro pos v hpos
    exact ⟨by simp only [get, if_neg hpos], by simp only [set, if_neg hpos]⟩

end CosmicArchitect.Util.TinyOctree
