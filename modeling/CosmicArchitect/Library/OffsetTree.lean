import CosmicArchitect.Library.Blocks
import Mathlib.Algebra.BigOperators.Group.Finset.Basic
import Mathlib.Algebra.Order.BigOperators.Group.Finset
import Mathlib.Data.Finset.Prod
import Mathlib.Data.Fintype.Basic

/-!
# Trees of blocks with relative links

A tree whose nodes are the blocks of a buffer. The links of a branch are distances to its
children, so the tree survives when blocks are put in front of it. The root is the first
block, and all leaves are equally deep.
-/

namespace CosmicArchitect.Library

universe u v

open Blocks

/-- Sizes and links of the blocks: `link b c` is the distance from `b` to its child `c`. -/
structure BlockKind (β : Type u) (C : Type v) where
  leaf : β → Bool
  link : β → C → Option Nat
  branchSize : Nat
  leafSize : Nat
  branch_pos : 0 < branchSize
  leaf_pos : 0 < leafSize
  size : β → Nat
  size_eq : ∀ b, size b = if leaf b then leafSize else branchSize
  link_leaf : ∀ {b}, leaf b = true → ∀ c, link b c = none

namespace BlockKind
variable {β : Type u} {C : Type v} (K : BlockKind β C)

theorem size_pos (b : β) : 0 < K.size b := by
  rw [K.size_eq]
  split
  · exact K.leaf_pos
  · exact K.branch_pos

/-- The link in direction `c` of the block at address `a`. -/
def linkAt (l : List β) (a : Nat) (c : C) : Option Nat :=
  (blockAt K.size l a).bind fun b => K.link b c

/-- The address reached over a list of children from address `a`. -/
def follow (l : List β) : List C → Nat → Option Nat
  | [], a => some a
  | c :: π, a => (K.linkAt l a c).bind fun d => follow l π (a + d)

/-- Bytes of a full tree with leaves `n` levels below the root. -/
def fullBytes [Fintype C] : Nat → Nat
  | 0 => K.leafSize
  | n + 1 => K.branchSize + Fintype.card C * fullBytes n

def weight (n : Nat) (π : List C) : Nat := if π.length = n then K.leafSize else K.branchSize

/-- The first block is the root of a tree, and the buffer holds nothing else. -/
structure IsTree (l : List β) (n : Nat) : Prop where
  reach : ∀ {a b}, blockAt K.size l a = some b → ∃ π, K.follow l π 0 = some a
  block : ∀ {π a}, K.follow l π 0 = some a →
    ∃ b, blockAt K.size l a = some b ∧ π.length ≤ n ∧ (K.leaf b = true ↔ π.length = n)
  inj : ∀ {π ρ a}, K.follow l π 0 = some a → K.follow l ρ 0 = some a → π = ρ
  total : ∃ S : Finset (List C), (∀ π, π ∈ S ↔ (K.follow l π 0).isSome) ∧
    bytes K.size l = ∑ π ∈ S, K.weight n π

variable {K} {l l' : List β} {n : Nat} {π ρ : List C} {a : Nat}

theorem follow_append (l : List β) (ρ : List C) : ∀ (π : List C) (a : Nat),
    K.follow l (π ++ ρ) a = (K.follow l π a).bind (K.follow l ρ) := by
  intro π
  induction π with
  | nil =>
    intro a
    rfl
  | cons c π ih =>
    intro a
    simp only [List.cons_append, follow, ih, Option.bind_assoc]

theorem follow_snoc (l : List β) (π : List C) (c : C) (a : Nat) :
    K.follow l (π ++ [c]) a =
      (K.follow l π a).bind fun x => (K.linkAt l x c).map fun d => x + d := by
  rw [follow_append]
  congr 1
  funext x
  simp only [follow, Option.map_eq_bind, Function.comp_def]

theorem follow_congr (h : K.linkAt l' = K.linkAt l) : ∀ (π : List C) (a : Nat),
    K.follow l' π a = K.follow l π a := by
  intro π
  induction π with
  | nil =>
    intro a
    rfl
  | cons c π ih =>
    intro a
    simp only [follow, h, ih]

theorem weights_le [Fintype C] [DecidableEq C] (n : Nat) : ∀ S : Finset (List C),
    (∀ π ∈ S, π.length ≤ n) → ∑ π ∈ S, K.weight n π ≤ K.fullBytes n := by
  -- all paths of length at most `n`
  suffices h : ∃ T : Finset (List C), (∀ π : List C, π.length ≤ n → π ∈ T) ∧
      ∑ π ∈ T, K.weight n π = K.fullBytes n by
    obtain ⟨T, hmem, hsum⟩ := h
    intro S hS
    rw [← hsum]
    exact Finset.sum_le_sum_of_subset fun π hπ => hmem π (hS π hπ)
  induction n with
  | zero =>
    refine ⟨{[]}, ?_, ?_⟩
    · intro π hπ
      rw [List.length_eq_zero_iff.mp (Nat.le_zero.mp hπ)]
      exact Finset.mem_singleton_self _
    · simp [weight, fullBytes]
  | succ n ih =>
    obtain ⟨T, hmem, hsum⟩ := ih
    have hinj : Function.Injective fun x : C × List C => x.1 :: x.2 := by
      intro x y hxy
      exact Prod.ext (List.cons.inj hxy).1 (List.cons.inj hxy).2
    refine ⟨insert [] ((Finset.univ ×ˢ T).map ⟨fun x => x.1 :: x.2, hinj⟩), ?_, ?_⟩
    · intro π hπ
      cases π with
      | nil => exact Finset.mem_insert_self _ _
      | cons c π =>
        refine Finset.mem_insert_of_mem (Finset.mem_map.mpr ⟨(c, π), ?_, rfl⟩)
        have hπ' : π.length ≤ n := by simpa using hπ
        exact Finset.mem_product.mpr ⟨Finset.mem_univ c, hmem π hπ'⟩
    · have hnil : ([] : List C) ∉ (Finset.univ ×ˢ T).map ⟨fun x => x.1 :: x.2, hinj⟩ := by
        simp
      rw [Finset.sum_insert hnil, Finset.sum_map, Finset.sum_product]
      have hrow : ∀ c : C, ∑ π ∈ T, K.weight (n + 1) (c :: π) = K.fullBytes n := by
        intro c
        rw [← hsum]
        exact Finset.sum_congr rfl fun π _ => by simp [weight]
      simp only [Function.Embedding.coeFn_mk, hrow, Finset.sum_const, Finset.card_univ,
        Nat.nsmul_eq_mul, fullBytes]
      simp [weight]

theorem IsTree.bytes_le [Fintype C] [DecidableEq C] (h : K.IsTree l n) :
    bytes K.size l ≤ K.fullBytes n := by
  obtain ⟨S, hS, hsum⟩ := h.total
  rw [hsum]
  refine weights_le n S fun π hπ => ?_
  obtain ⟨a, ha⟩ := Option.isSome_iff_exists.mp ((hS π).mp hπ)
  obtain ⟨b, -, hlen, -⟩ := h.block ha
  exact hlen

theorem IsTree.lt_bytes (h : K.IsTree l n) (hπ : K.follow l π 0 = some a) :
    a < bytes K.size l := by
  obtain ⟨b, hb, -, -⟩ := h.block hπ
  have hbound := blockAt_bound hb
  have hpos := K.size_pos b
  omega

/-! ### The three ways a tree comes about -/

theorem isTree_leaf {b : β} (hb : K.leaf b = true) : K.IsTree [b] 0 := by
  have hlink : ∀ a c, K.linkAt [b] a c = none := by
    intro a c
    simp only [linkAt, blockAt]
    split
    · exact K.link_leaf hb c
    · split <;> rfl
  have hfollow : ∀ {π a}, K.follow [b] π 0 = some a → π = [] ∧ a = 0 := by
    intro π a h
    cases π with
    | nil =>
      cases h
      exact ⟨rfl, rfl⟩
    | cons c π =>
      simp only [follow, hlink, Option.bind_none] at h
      cases h
  refine ⟨?_, ?_, ?_, {[]}, ?_, ?_⟩
  · intro a b' hb'
    simp only [blockAt] at hb'
    split at hb'
    · next h0 => exact ⟨[], congrArg some h0.symm⟩
    · split at hb' <;> cases hb'
  · intro π a h
    obtain ⟨rfl, rfl⟩ := hfollow h
    exact ⟨b, rfl, Nat.le_refl 0, by simp [hb]⟩
  · intro π ρ a h h'
    rw [(hfollow h).1, (hfollow h').1]
  · intro π
    rw [Finset.mem_singleton]
    constructor
    · intro h
      rw [h]
      rfl
    · intro h
      obtain ⟨a, ha⟩ := Option.isSome_iff_exists.mp h
      exact (hfollow ha).1
  · simp [K.size_eq, hb, weight]

theorem follow_cons (b : β) (l : List β) : ∀ (π : List C) (a : Nat),
    K.follow (b :: l) π (K.size b + a) = (K.follow l π a).map fun x => K.size b + x := by
  intro π
  induction π with
  | nil =>
    intro a
    rfl
  | cons c π ih =>
    intro a
    have hlink : K.linkAt (b :: l) (K.size b + a) c = K.linkAt l a c := by
      simp only [linkAt, blockAt_cons K.size_pos]
    simp only [follow, hlink, Nat.add_assoc, ih]
    cases K.linkAt l a c <;> rfl

section Root
variable [DecidableEq C] {b : β} {c₀ : C}
  (hlink : ∀ c, K.link b c = if c = c₀ then some (K.size b) else none)
include hlink

theorem follow_root (l : List β) (c : C) (π : List C) : K.follow (b :: l) (c :: π) 0 =
    if c = c₀ then (K.follow l π 0).map fun x => K.size b + x else none := by
  simp only [follow, linkAt, blockAt_zero, Option.bind_some, hlink]
  by_cases hc : c = c₀
  · have h := follow_cons (K := K) b l π 0
    rw [Nat.add_zero] at h
    simp only [hc, if_true, Option.bind_some, Nat.zero_add, h]
  · simp only [if_neg hc, Option.bind_none]

theorem isTree_root (hb : K.leaf b = false) (h : K.IsTree l n) : K.IsTree (b :: l) (n + 1) := by
  have hsize : K.size b = K.branchSize := by simp [K.size_eq, hb]
  have hcons : ∀ {c π a}, K.follow (b :: l) (c :: π) 0 = some a →
      c = c₀ ∧ ∃ x, K.follow l π 0 = some x ∧ a = K.size b + x := by
    intro c π a ha
    rw [follow_root hlink] at ha
    split at ha
    · next hc =>
      obtain ⟨x, hx, rfl⟩ := Option.map_eq_some_iff.mp ha
      exact ⟨hc, x, hx, rfl⟩
    · cases ha
  have hpos := K.size_pos b
  refine ⟨?_, ?_, ?_, ?_⟩
  · intro a v hv
    rcases blockAt_cons_cases hv with rfl | ⟨x, rfl, hx⟩
    · exact ⟨[], rfl⟩
    · obtain ⟨π, hπ⟩ := h.reach hx
      exact ⟨c₀ :: π, by rw [follow_root hlink, if_pos rfl, hπ, Option.map_some]⟩
  · intro π a ha
    cases π with
    | nil =>
      cases ha
      exact ⟨b, rfl, Nat.zero_le _, by simp [hb]⟩
    | cons c π =>
      obtain ⟨-, x, hx, rfl⟩ := hcons ha
      obtain ⟨b', hb', hlen, hleaf⟩ := h.block hx
      refine ⟨b', by rw [blockAt_cons K.size_pos]; exact hb', ?_, ?_⟩
      · simpa using hlen
      · simpa using hleaf
  · intro π ρ a ha ha'
    cases π with
    | nil =>
      cases ha
      cases ρ with
      | nil => rfl
      | cons c ρ =>
        obtain ⟨-, x, -, hx⟩ := hcons ha'
        omega
    | cons c π =>
      obtain ⟨rfl, x, hx, rfl⟩ := hcons ha
      cases ρ with
      | nil =>
        have h0 : 0 = K.size b + x := Option.some.inj ha'
        omega
      | cons d ρ =>
        obtain ⟨rfl, y, hy, hxy⟩ := hcons ha'
        have hyx : y = x := by omega
        rw [hyx] at hy
        rw [h.inj hx hy]
  · obtain ⟨S, hS, hsum⟩ := h.total
    have hinj : Function.Injective fun π : List C => c₀ :: π := by
      intro π ρ hπρ
      exact (List.cons.inj hπρ).2
    have hnil : ([] : List C) ∉ S.map ⟨fun π => c₀ :: π, hinj⟩ := by simp
    refine ⟨insert [] (S.map ⟨fun π => c₀ :: π, hinj⟩), ?_, ?_⟩
    · intro π
      cases π with
      | nil => exact ⟨fun _ => rfl, fun _ => Finset.mem_insert_self _ _⟩
      | cons c π =>
        rw [follow_root hlink]
        by_cases hc : c = c₀
        · subst hc
          simp [hS]
        · simp [hc, Ne.symm hc]
    · rw [bytes_cons, hsum, Finset.sum_insert hnil, Finset.sum_map, hsize]
      have hroot : K.weight (n + 1) [] = K.branchSize := by simp [weight]
      have hrow : ∀ π ∈ S, K.weight (n + 1) (c₀ :: π) = K.weight n π := by
        intro π _
        simp [weight]
      rw [hroot]
      exact congrArg _ (Finset.sum_congr rfl hrow).symm

end Root

/-- A path that ends at a missing link leads nowhere. -/
theorem follow_vacant {p : β} {c : C} (hπ : K.follow l π 0 = some a)
    (hp : blockAt K.size l a = some p) (hc : K.link p c = none) :
    K.follow l (π ++ [c]) 0 = none := by
  rw [follow_snoc, hπ, Option.bind_some]
  simp only [linkAt, hp, Option.bind_some, hc, Option.map_none]

theorem blockAt_emplace {p p' : β} (b : β) (hp : blockAt K.size l a = some p)
    (hleaf' : K.leaf p' = K.leaf p) (x : Nat) :
    blockAt K.size (write K.size (l ++ [b]) a p') x =
      if x = a then some p' else if x = bytes K.size l then some b else blockAt K.size l x :=
  blockAt_write_append K.size_pos b hp (by rw [K.size_eq, K.size_eq, hleaf']) x

/-- The links of the old blocks that are not written over. -/
theorem linkAt_emplace_other {p p' : β} (b : β) (hp : blockAt K.size l a = some p)
    (hleaf' : K.leaf p' = K.leaf p) {x : Nat} (hxa : x ≠ a) (hx : x < bytes K.size l) (d : C) :
    K.linkAt (write K.size (l ++ [b]) a p') x d = K.linkAt l x d := by
  simp only [linkAt, blockAt_emplace b hp hleaf', if_neg hxa, if_neg (Nat.ne_of_lt hx)]

theorem linkAt_emplace_new {p p' b : β} (hp : blockAt K.size l a = some p)
    (hleaf' : K.leaf p' = K.leaf p) (hb : ∀ d, K.link b d = none) (ha : a < bytes K.size l)
    (d : C) : K.linkAt (write K.size (l ++ [b]) a p') (bytes K.size l) d = none := by
  simp only [linkAt, blockAt_emplace b hp hleaf', if_neg (Nat.ne_of_gt ha), if_true,
    Option.bind_some, hb]

section Emplace
variable [DecidableEq C] {p p' b : β} {c : C}
  (h : K.IsTree l n) (hπ : K.follow l π 0 = some a) (hp : blockAt K.size l a = some p)
  (hc : K.link p c = none) (hleaf' : K.leaf p' = K.leaf p)
  (hlink' : ∀ d, K.link p' d = if d = c then some (bytes K.size l - a) else K.link p d)
  (hb : ∀ d, K.link b d = none)

include hp hleaf' hlink' in
variable (b) in
/-- The links of the parent. -/
theorem linkAt_emplace_parent (d : C) : K.linkAt (write K.size (l ++ [b]) a p') a d =
    if d = c then some (bytes K.size l - a) else K.linkAt l a d := by
  simp only [linkAt, blockAt_emplace b hp hleaf', if_true, Option.bind_some, hlink', hp]

include h hπ hp hc hleaf' hlink' hb

variable (p') in
/-- Where the paths lead after a new block was linked as child `c` of the node at `π`. -/
theorem follow_emplace (ρ : List C) :
    K.follow (write K.size (l ++ [b]) a p') ρ 0 =
      if ρ = π ++ [c] then some (bytes K.size l) else K.follow l ρ 0 := by
  have halt := h.lt_bytes hπ
  have hnone := follow_vacant hπ hp hc
  -- the induction is on the last step of the path
  induction ρ using List.reverseRecOn with
  | nil =>
    have hne : ([] : List C) ≠ π ++ [c] := by simp
    rw [if_neg hne]
    rfl
  | append_singleton ρ d ih =>
    rw [follow_snoc, ih]
    by_cases hρ : ρ = π ++ [c]
    · -- below the new block
      have hne : ρ ++ [d] ≠ π ++ [c] := by
        rw [hρ]
        intro hcontra
        have := congrArg List.length hcontra
        simp at this
      rw [if_pos hρ, if_neg hne, follow_snoc, hρ, hnone, Option.bind_some,
        linkAt_emplace_new hp hleaf' hb halt]
      rfl
    · rw [if_neg hρ]
      cases hx : K.follow l ρ 0 with
      | none =>
        have hne : ρ ++ [d] ≠ π ++ [c] := by
          intro hcontra
          have hρπ := (List.append_inj' hcontra rfl).1
          rw [hρπ, hπ] at hx
          cases hx
        rw [if_neg hne, follow_snoc, hx]
        simp only [Option.bind_none]
      | some x =>
        have hxlt := h.lt_bytes hx
        rw [Option.bind_some]
        by_cases hxa : x = a
        · -- the parent itself
          rw [hxa] at hx ⊢
          have hρπ : ρ = π := h.inj hx hπ
          rw [linkAt_emplace_parent b hp hleaf' hlink', follow_snoc, hx, hρπ]
          by_cases hd : d = c
          · have hback : a + (bytes K.size l - a) = bytes K.size l := by omega
            simp only [hd, if_true, Option.map_some, hback]
          · have hne : π ++ [d] ≠ π ++ [c] := by simpa using hd
            rw [if_neg hd, if_neg hne]
            rfl
        · have hne : ρ ++ [d] ≠ π ++ [c] := by
            intro hcontra
            have hρπ := (List.append_inj' hcontra rfl).1
            rw [hρπ, hπ] at hx
            exact hxa (Option.some.inj hx).symm
          rw [linkAt_emplace_other b hp hleaf' hxa hxlt, if_neg hne, follow_snoc, hx]
          rfl

variable (p') in
theorem reach_emplace {x : Nat} {v : β}
    (hv : blockAt K.size (write K.size (l ++ [b]) a p') x = some v) :
    ∃ ρ, K.follow (write K.size (l ++ [b]) a p') ρ 0 = some x := by
  have hfollow := follow_emplace p' h hπ hp hc hleaf' hlink' hb
  -- an old block is reached over its old path
  have hold : ∀ {y q}, blockAt K.size l y = some q →
      ∃ ρ, K.follow (write K.size (l ++ [b]) a p') ρ 0 = some y := by
    intro y q hq
    obtain ⟨ρ, hρ⟩ := h.reach hq
    refine ⟨ρ, ?_⟩
    rw [hfollow, if_neg, hρ]
    intro hρc
    rw [hρc, follow_vacant hπ hp hc] at hρ
    cases hρ
  rw [blockAt_emplace b hp hleaf'] at hv
  split at hv
  · next hx =>
    rw [hx]
    exact hold hp
  · split at hv
    · next hx =>
      rw [hx]
      exact ⟨π ++ [c], by rw [hfollow, if_pos rfl]⟩
    · exact hold hv

variable (p') in
theorem block_emplace (hlen : π.length < n) (hbleaf : K.leaf b = true ↔ π.length + 1 = n)
    {ρ : List C} {x : Nat} (hx : K.follow (write K.size (l ++ [b]) a p') ρ 0 = some x) :
    ∃ v, blockAt K.size (write K.size (l ++ [b]) a p') x = some v ∧ ρ.length ≤ n ∧
      (K.leaf v = true ↔ ρ.length = n) := by
  have halt := h.lt_bytes hπ
  rw [follow_emplace p' h hπ hp hc hleaf' hlink' hb] at hx
  rw [blockAt_emplace b hp hleaf']
  by_cases hρ : ρ = π ++ [c]
  · rw [if_pos hρ] at hx
    cases hx
    refine ⟨b, by rw [if_neg (by omega), if_pos rfl], ?_, ?_⟩
    · simp only [hρ, List.length_append, List.length_singleton]
      omega
    · simpa [hρ] using hbleaf
  · rw [if_neg hρ] at hx
    obtain ⟨q, hq, hqlen, hqleaf⟩ := h.block hx
    by_cases hxa : x = a
    · rw [hxa] at hx hq
      cases hp.symm.trans hq
      exact ⟨p', by rw [if_pos hxa], hqlen, by rw [hleaf']; exact hqleaf⟩
    · have hxlt := h.lt_bytes hx
      exact ⟨q, by rw [if_neg hxa, if_neg (by omega)]; exact hq, hqlen, hqleaf⟩

variable (p') in
theorem inj_emplace {ρ σ : List C} {x : Nat}
    (hx : K.follow (write K.size (l ++ [b]) a p') ρ 0 = some x)
    (hy : K.follow (write K.size (l ++ [b]) a p') σ 0 = some x) : ρ = σ := by
  rw [follow_emplace p' h hπ hp hc hleaf' hlink' hb] at hx hy
  by_cases hρ : ρ = π ++ [c]
  · by_cases hσ : σ = π ++ [c]
    · rw [hρ, hσ]
    · rw [if_pos hρ] at hx
      rw [if_neg hσ] at hy
      cases hx
      exact absurd (h.lt_bytes hy) (Nat.lt_irrefl _)
  · rw [if_neg hρ] at hx
    by_cases hσ : σ = π ++ [c]
    · rw [if_pos hσ] at hy
      cases hy
      exact absurd (h.lt_bytes hx) (Nat.lt_irrefl _)
    · rw [if_neg hσ] at hy
      exact h.inj hx hy

variable (p') in
theorem total_emplace (hbleaf : K.leaf b = true ↔ π.length + 1 = n) :
    ∃ S : Finset (List C),
      (∀ ρ, ρ ∈ S ↔ (K.follow (write K.size (l ++ [b]) a p') ρ 0).isSome) ∧
      bytes K.size (write K.size (l ++ [b]) a p') = ∑ ρ ∈ S, K.weight n ρ := by
  obtain ⟨S, hS, hsum⟩ := h.total
  have hnot : π ++ [c] ∉ S := by
    rw [hS, follow_vacant hπ hp hc]
    simp
  refine ⟨insert (π ++ [c]) S, ?_, ?_⟩
  · intro ρ
    rw [follow_emplace p' h hπ hp hc hleaf' hlink' hb, Finset.mem_insert, hS]
    by_cases hρ : ρ = π ++ [c] <;> simp [hρ]
  · have hbsize : K.size b = K.weight n (π ++ [c]) := by
      simp only [K.size_eq, weight, List.length_append, List.length_singleton]
      by_cases hlast : π.length + 1 = n
      · rw [if_pos (hbleaf.mpr hlast), if_pos hlast]
      · rw [if_neg fun hb => hlast (hbleaf.mp hb), if_neg hlast]
    rw [bytes_write_append K.size_pos b hp (by rw [K.size_eq, K.size_eq, hleaf']), hsum,
      Finset.sum_insert hnot, hbsize, Nat.add_comm]

variable (p') in
theorem isTree_emplace (hlen : π.length < n) (hbleaf : K.leaf b = true ↔ π.length + 1 = n) :
    K.IsTree (write K.size (l ++ [b]) a p') n where
  reach := reach_emplace p' h hπ hp hc hleaf' hlink' hb
  block := block_emplace p' h hπ hp hc hleaf' hlink' hb hlen hbleaf
  inj := inj_emplace p' h hπ hp hc hleaf' hlink' hb
  total := total_emplace p' h hπ hp hc hleaf' hlink' hb hbleaf

end Emplace

theorem linkAt_write {p : β} (hp : blockAt K.size l a = some p) (p' : β)
    (hleaf : K.leaf p' = K.leaf p) (hlink : K.link p' = K.link p) : K.linkAt (write K.size l a p') = K.linkAt l := by
  have hsize : K.size p' = K.size p := by rw [K.size_eq, K.size_eq, hleaf]
  funext x c
  simp only [linkAt, blockAt_write _ hp hsize]
  by_cases hx : x = a
  · rw [if_pos hx, hx, hp, Option.bind_some, Option.bind_some, hlink]
  · rw [if_neg hx]

theorem isTree_write {p : β} (h : K.IsTree l n) (hp : blockAt K.size l a = some p) (p' : β)
    (hleaf : K.leaf p' = K.leaf p) (hlink : K.link p' = K.link p) :
    K.IsTree (write K.size l a p') n := by
  have hsize : K.size p' = K.size p := by rw [K.size_eq, K.size_eq, hleaf]
  have hfollow := follow_congr (linkAt_write hp p' hleaf hlink)
  refine ⟨?_, ?_, ?_, ?_⟩
  · intro x v hv
    rw [blockAt_write _ hp hsize] at hv
    have hold : ∃ q, blockAt K.size l x = some q := by
      split at hv
      · next hx => exact ⟨p, hx ▸ hp⟩
      · exact ⟨v, hv⟩
    obtain ⟨q, hq⟩ := hold
    obtain ⟨π, hπ⟩ := h.reach hq
    exact ⟨π, by rw [hfollow]; exact hπ⟩
  · intro π x hx
    rw [hfollow] at hx
    obtain ⟨q, hq, hlen, hqleaf⟩ := h.block hx
    rw [blockAt_write _ hp hsize]
    by_cases hxa : x = a
    · rw [hxa, hp] at hq
      cases hq
      exact ⟨p', if_pos hxa, hlen, by rw [hleaf]; exact hqleaf⟩
    · exact ⟨q, by rw [if_neg hxa]; exact hq, hlen, hqleaf⟩
  · intro π ρ x hx hy
    rw [hfollow] at hx hy
    exact h.inj hx hy
  · obtain ⟨S, hS, hsum⟩ := h.total
    refine ⟨S, fun π => ?_, ?_⟩
    · rw [hfollow]
      exact hS π
    · rw [bytes_write _ hp hsize, hsum]

end BlockKind
end CosmicArchitect.Library
