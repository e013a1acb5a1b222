import Mathlib.Data.List.Pairwise
import Mathlib.Tactic.Common

/-!
# Objects in allocated memory

The blocks that an allocator has handed out, and the objects that live in them. An object lives
in a region. It ends when another one is placed over a part of it or when its block is freed.
-/

namespace CosmicArchitect.Library

universe u

/-- `size` addresses from `start` on. -/
structure Region where
  start : Nat
  size : Nat
deriving DecidableEq, Repr

namespace Region
variable {r r' s s' : Region}

/-- No address lies in both. -/
def Apart (r r' : Region) : Prop := r.start + r.size ≤ r'.start ∨ r'.start + r'.size ≤ r.start

def Within (r r' : Region) : Prop := r'.start ≤ r.start ∧ r.start + r.size ≤ r'.start + r'.size

instance (r r' : Region) : Decidable (r.Apart r') := inferInstanceAs (Decidable (_ ∨ _))

instance (r r' : Region) : Decidable (r.Within r') := inferInstanceAs (Decidable (_ ∧ _))

theorem Apart.symm (h : r.Apart r') : r'.Apart r := Or.symm h

instance : Std.Symm Apart := ⟨fun _ _ => Apart.symm⟩

theorem Apart.mono (h : r.Apart r') (hs : s.Within r) (hs' : s'.Within r') : s.Apart s' := by
  unfold Apart Within at *
  omega

theorem Apart.ne (h : r.Apart r') (hr : 0 < r.size) : r ≠ r' := by
  intro hc
  subst hc
  unfold Apart at h
  omega

theorem Apart.start_ne (h : r.Apart r') (hr : 0 < r.size) (hr' : 0 < r'.size) :
    r.start ≠ r'.start := by
  unfold Apart at h
  omega

end Region

/-- Blocks overlap nowhere. -/
structure ObjectHeap (V : Type u) where
  blocks : List Region := []
  objects : Region → Option V := fun _ => none
  sized : ∀ b ∈ blocks, 0 < b.size := by simp
  apart : blocks.Pairwise Region.Apart := by simp

namespace ObjectHeap
variable {V : Type u} {h h' : ObjectHeap V} {r s b : Region} {v : V}

/-- End the objects of a region. -/
def clear (h : ObjectHeap V) (r : Region) : ObjectHeap V :=
  { h with objects := fun s => if r.Apart s then h.objects s else none }

/-- The block `r` is one that the allocator can hand out. -/
def Available (h : ObjectHeap V) (r : Region) : Prop := 0 < r.size ∧ ∀ b ∈ h.blocks, r.Apart b

instance (h : ObjectHeap V) (r : Region) : Decidable (h.Available r) :=
  inferInstanceAs (Decidable (_ ∧ _))

def malloc (h : ObjectHeap V) (r : Region) : Option (ObjectHeap V) :=
  if hr : h.Available r then
    some { h.clear r with
      blocks := r :: h.blocks
      sized := List.forall_mem_cons.mpr ⟨hr.1, h.sized⟩
      apart := List.pairwise_cons.mpr ⟨hr.2, h.apart⟩ }
  else none

/-- Take back the block `r`. -/
def release (h : ObjectHeap V) (r : Region) : ObjectHeap V :=
  { h.clear r with
    blocks := h.blocks.filter (· ≠ r)
    sized := fun b hb => h.sized b (List.mem_filter.mp hb).1
    apart := h.apart.filter _ }

def free (h : ObjectHeap V) (start : Nat) : Option (ObjectHeap V) :=
  (h.blocks.find? (·.start = start)).map h.release

/-- Construct an object; `none` outside of the blocks. -/
def place (h : ObjectHeap V) (r : Region) (v : V) : Option (ObjectHeap V) :=
  if ∃ b ∈ h.blocks, r.Within b then
    some { h.clear r with objects := fun s => if s = r then some v else (h.clear r).objects s }
  else none

/-! ### What the operations do to objects -/

theorem clear_objects (hr : r.Apart s) : (h.clear r).objects s = h.objects s := if_pos hr

theorem malloc_spec (hr : h.Available r) : ∃ h', h.malloc r = some h' ∧ h'.blocks = r :: h.blocks ∧
    ∀ s, r.Apart s → h'.objects s = h.objects s :=
  ⟨_, dif_pos hr, rfl, fun _ hs => clear_objects hs⟩

theorem place_spec (hb : b ∈ h.blocks) (hr : r.Within b) (v : V) :
    ∃ h', h.place r v = some h' ∧ h'.blocks = h.blocks ∧ h'.objects r = some v ∧
      ∀ s, r.Apart s → s ≠ r → h'.objects s = h.objects s := by
  refine ⟨_, if_pos ⟨b, hb, hr⟩, rfl, if_pos rfl, ?_⟩
  intro s hs hne
  simp only [if_neg hne]
  exact clear_objects hs

theorem find_block (hb : b ∈ h.blocks) : h.blocks.find? (·.start = b.start) = some b := by
  cases hf : h.blocks.find? (·.start = b.start) with
  | none =>
    have hnone := List.find?_eq_none.mp hf b hb
    simp at hnone
  | some c =>
    have hc := List.mem_of_find?_eq_some hf
    have hstart : c.start = b.start := by simpa using List.find?_some hf
    by_cases hcb : c = b
    · rw [hcb]
    · have hap := h.apart.forall hc hb hcb
      exact absurd hstart (hap.start_ne (h.sized c hc) (h.sized b hb))

/-- A freed block takes its own objects with it. -/
theorem free_spec (hb : b ∈ h.blocks) : ∃ h', h.free b.start = some h' ∧
    (∀ c, c ∈ h'.blocks ↔ c ∈ h.blocks ∧ c ≠ b) ∧ ∀ s, b.Apart s → h'.objects s = h.objects s := by
  refine ⟨h.release b, by rw [free, find_block hb, Option.map_some], ?_, fun s hs => clear_objects hs⟩
  intro c
  rw [release, List.mem_filter, decide_eq_true_iff]

end ObjectHeap
end CosmicArchitect.Library
