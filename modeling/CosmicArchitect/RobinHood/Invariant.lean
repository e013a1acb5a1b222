import CosmicArchitect.Library.OrderedProbing
import CosmicArchitect.RobinHood.Words

/-!
# The invariant of a table

An info byte is the distance of its entry from home, counted in steps of `mInfoInc`, plus some bits
of the hash; zero for an empty slot. Comparing info bytes therefore compares ranks: home first, and
among entries with the same home those with more hash bits stand in front.
-/

namespace CosmicArchitect.RobinHood
open Library

variable {K V : Type}

namespace Table
variable (hash : K → BitVec 64)

/-- The slot as the layout sees it. -/
def occ (t : Table K V) (i : Nat) : Option (K × V) := t.keyVals[i]?.join

def home (t : Table K V) (key : K) : Nat := (t.keyToIdx hash key).1

/-- The bits of the hash that an info byte holds. -/
def bits (t : Table K V) (key : K) : Nat := ((t.mix hash key).toNat &&& 31) >>> t.infoHashShift

/-- The info byte of an entry with this key in slot `i`. -/
def byte (t : Table K V) (key : K) (i : Nat) : Nat :=
  t.infoInc * (i - t.home hash key + 1) + t.bits hash key

/-- `mInfoInc` and `mInfoHashShift` after some calls of `try_increase_info`. -/
structure IncOk (t : Table K V) : Prop where
  shift : t.infoHashShift ≤ 4
  inc : t.infoInc = 32 >>> t.infoHashShift

section
variable {hash} {t : Table K V}

theorem IncOk.cases (h : t.IncOk) : t.infoHashShift = 0 ∧ t.infoInc = 32 ∨
    t.infoHashShift = 1 ∧ t.infoInc = 16 ∨ t.infoHashShift = 2 ∧ t.infoInc = 8 ∨
    t.infoHashShift = 3 ∧ t.infoInc = 4 ∨ t.infoHashShift = 4 ∧ t.infoInc = 2 := by
  obtain ⟨hshift, hinc⟩ := h
  generalize t.infoHashShift = s at hshift hinc
  interval_cases s <;> simp [hinc]

theorem IncOk.two_le (h : t.IncOk) : 2 ≤ t.infoInc ∧ t.infoInc ≤ 32 := by
  rcases h.cases with ⟨-, hi⟩ | ⟨-, hi⟩ | ⟨-, hi⟩ | ⟨-, hi⟩ | ⟨-, hi⟩ <;> omega

theorem bits_lt (hash : K → BitVec 64) (h : t.IncOk) (key : K) : t.bits hash key < t.infoInc := by
  have hlt : (t.mix hash key).toNat &&& 31 < 32 :=
    Nat.lt_of_le_of_lt Nat.and_le_right (by omega)
  unfold bits
  generalize (t.mix hash key).toNat &&& 31 = n at hlt
  rw [Nat.shiftRight_eq_div_pow]
  rcases h.cases with ⟨hs, hi⟩ | ⟨hs, hi⟩ | ⟨hs, hi⟩ | ⟨hs, hi⟩ | ⟨hs, hi⟩ <;>
    rw [hs, hi] <;> omega

theorem home_le_mask (hash : K → BitVec 64) (t : Table K V) (key : K) : t.home hash key ≤ t.mask := Nat.and_le_right

end

/-- Where the entries of the table want to be, and in which order. -/
def homes (t : Table K V) (h : t.IncOk) : Homes (K × V) where
  home e := t.home hash e.1
  rank e := t.infoInc * t.home hash e.1 - t.bits hash e.1
  mono := by
    intro a b hab
    have ha := bits_lt hash h a.1
    by_contra hlt
    have hmul : t.infoInc * (t.home hash b.1 + 1) ≤ t.infoInc * t.home hash a.1 :=
      Nat.mul_le_mul_left _ (by omega)
    rw [Nat.mul_add, Nat.mul_one] at hmul
    have hcast : (t.infoInc : Int) * t.home hash b.1 + t.infoInc ≤ t.infoInc * t.home hash a.1 := by
      exact_mod_cast hmul
    omega

section
variable {hash} {t : Table K V} {h : t.IncOk} {key key' : K} {v w : V} {i : Nat}

theorem byte_eq (hi : t.home hash key ≤ i) :
    (t.byte hash key i : Int) = t.infoInc * (i + 1) - (t.homes hash h).rank (key, v) := by
  unfold byte homes
  simp only
  push_cast [Nat.cast_sub hi]
  ring

/-- Info bytes in one slot compare like ranks, the other way round. -/
theorem byte_lt_iff (hi : t.home hash key ≤ i) (hi' : t.home hash key' ≤ i) :
    t.byte hash key i < t.byte hash key' i ↔
      (t.homes hash h).rank (key', w) < (t.homes hash h).rank (key, v) := by
  have heq := byte_eq (h := h) (v := v) hi
  have heq' := byte_eq (h := h) (v := w) hi'
  omega

theorem byte_eq_iff (hi : t.home hash key ≤ i) (hi' : t.home hash key' ≤ i) :
    t.byte hash key i = t.byte hash key' i ↔
      (t.homes hash h).rank (key, v) = (t.homes hash h).rank (key', w) := by
  have heq := byte_eq (h := h) (v := v) hi
  have heq' := byte_eq (h := h) (v := w) hi'
  omega

theorem byte_succ (hi : t.home hash key ≤ i) :
    t.byte hash key (i + 1) = t.byte hash key i + t.infoInc := by
  unfold byte
  rw [show i + 1 - t.home hash key + 1 = i - t.home hash key + 1 + 1 by omega, Nat.mul_add _ _ 1]
  omega

theorem inc_le_byte (hash : K → BitVec 64) (t : Table K V) (key : K) (i : Nat) : t.infoInc ≤ t.byte hash key i := by
  unfold byte
  rw [Nat.mul_add, Nat.mul_one]
  omega

theorem keyToIdx_eq (t : Table K V) (key : K) :
    t.keyToIdx hash key = (t.home hash key, t.byte hash key (t.home hash key)) := by
  unfold byte
  rw [Nat.sub_self, Nat.zero_add, Nat.mul_one]
  rfl

theorem byte_home (hash : K → BitVec 64) (h : t.IncOk) (key : K) :
    t.byte hash key (t.home hash key) < 2 * t.infoInc := by
  have := bits_lt hash h key
  unfold byte
  rw [Nat.sub_self, Nat.zero_add, Nat.mul_one]
  omega

end

/-! ### The invariant -/

/-- What the info bytes are: those of the slots, the sentinel and the padding behind them. -/
def infoByte (t : Table K V) (slots i : Nat) : Option (K × V) → Option Nat
  | some e => some (t.byte hash e.1 i)
  | none =>
    if i = slots ∧ t.mask ≠ 0 then some 1
    else if i < slots + 8 then some 0 else none

def Bytes (t : Table K V) : Prop :=
  ∀ i, t.info[i]? = t.infoByte hash t.keyVals.length i (t.occ i)

theorem infoByte_some (t : Table K V) (slots i : Nat) (e : K × V) :
    t.infoByte hash slots i (some e) = some (t.byte hash e.1 i) := rfl

theorem infoByte_none (t : Table K V) (slots i : Nat) : t.infoByte hash slots i none =
    if i = slots ∧ t.mask ≠ 0 then some 1 else if i < slots + 8 then some 0 else none := rfl

structure Inv (t : Table K V) : Prop where
  inc : t.IncOk
  layout : (t.homes hash inc).Layout t.occ
  distinct : DistinctKeys Prod.fst t.occ
  bytes : t.Bytes hash
  capacity : t.keyVals.length = if t.mask = 0 then 0 else calcNumElementsWithBuffer (t.mask + 1)
  mask : t.mask = 0 ∨ 7 ≤ t.mask
  size : t.numElements = (occupied t.occ t.keyVals.length).card
  load : t.numElements ≤ calcMaxNumElementsAllowed (t.mask + 1)
  allowed : t.maxNumElementsAllowed = 0 ∨
    t.maxNumElementsAllowed = calcMaxNumElementsAllowed (t.mask + 1)
  small : ∀ {i e}, t.occ i = some e → t.byte hash e.1 i ≤ 255
  room : t.maxNumElementsAllowed ≠ 0 →
    ∀ {i e}, t.occ i = some e → t.byte hash e.1 i + t.infoInc ≤ 255

theorem lt_of_occ {t : Table K V} {i : Nat} {e : K × V} (h : t.occ i = some e) :
    i < t.keyVals.length := by
  exact (List.getElem?_eq_some_iff.mp (Option.join_eq_some_iff.mp h)).1

theorem occ_eq_some {t : Table K V} {i : Nat} {e : K × V} :
    t.occ i = some e ↔ t.keyVals[i]? = some (some e) := Option.join_eq_some_iff

theorem occ_length (t : Table K V) : t.occ t.keyVals.length = none := by
  unfold occ
  rw [List.getElem?_eq_none le_rfl]
  rfl

theorem nodeAt_occ {t : Table K V} {i : Nat} {e : K × V} (he : t.occ i = some e) :
    t.nodeAt i = .ok e := by
  unfold nodeAt
  rw [occ_eq_some.mp he]

namespace Inv
variable {hash} {t : Table K V} (h : t.Inv hash)
include h

theorem info_length : t.info.length = t.keyVals.length + 8 := by
  have hlast := h.bytes (t.keyVals.length + 7)
  have hpast := h.bytes (t.keyVals.length + 8)
  have hnone : ∀ n, t.occ (t.keyVals.length + n) = none := fun n => by
    unfold occ
    rw [List.getElem?_eq_none (by omega)]
    rfl
  rw [hnone, infoByte_none, if_neg (by omega), if_pos (by omega)] at hlast
  rw [hnone, infoByte_none, if_neg (by omega), if_neg (by omega)] at hpast
  have hlt := (List.getElem?_eq_some_iff.mp hlast).1
  have hge := List.getElem?_eq_none_iff.mp hpast
  omega

theorem infoAt_occ {i : Nat} {e : K × V} (he : t.occ i = some e) :
    t.infoAt i = .ok (t.byte hash e.1 i) := by
  have hb := h.bytes i
  rw [he, infoByte_some] at hb
  unfold infoAt
  rw [hb]

theorem infoAt_none {i : Nat} (he : t.occ i = none) (hi : i < t.keyVals.length + 8) :
    ∃ b, t.infoAt i = .ok b ∧ b ≤ 1 ∧ (i ≠ t.keyVals.length → b = 0) := by
  have hb := h.bytes i
  rw [he, infoByte_none] at hb
  unfold infoAt
  by_cases hend : i = t.keyVals.length ∧ t.mask ≠ 0
  · rw [if_pos hend] at hb
    exact ⟨1, by rw [hb], le_rfl, fun hne => absurd hend.1 hne⟩
  · rw [if_neg hend, if_pos hi] at hb
    exact ⟨0, by rw [hb], by omega, fun _ => rfl⟩

/-- An info that `keyToIdx` or `next` makes is larger than the bytes of empty slots. -/
theorem infoAt_lt {i : Nat} (he : t.occ i = none) (hi : i < t.keyVals.length + 8) (key : K)
    (j : Nat) : ∃ b, t.infoAt i = .ok b ∧ b < t.byte hash key j := by
  obtain ⟨b, hb, hle, -⟩ := h.infoAt_none he hi
  have := h.inc.two_le
  have := inc_le_byte hash t key j
  exact ⟨b, hb, by omega⟩

theorem home_le (key : K) : t.home hash key ≤ t.keyVals.length := by
  have hle := home_le_mask hash t key
  have hcap := h.capacity
  unfold calcNumElementsWithBuffer at hcap
  split at hcap <;> omega

theorem occ_home {i : Nat} {e : K × V} (he : t.occ i = some e) : t.home hash e.1 ≤ i :=
  h.layout.behind he

end Inv

end Table
end CosmicArchitect.RobinHood
