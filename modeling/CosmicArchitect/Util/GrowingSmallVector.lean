import CosmicArchitect.Util.SmallVector
import Mathlib.Algebra.Ring.Nat

/-!
# The growing small vector (Util/SmallVector.h)

The items stand in the storage of the vector or in a buffer on the heap. `size_t` has 64 bits:
the bytes of a buffer are counted modulo 2 ^ 64.
-/

namespace CosmicArchitect.Util.GrowingSmallVector

open Library SmallVectorBase

universe u
variable {α : Type u} (T : ItemType α)

def sizeMax : Nat := 2 ^ 64

/-- The items that fit in `new std::byte[sizeof(DataT) * capacity]`. -/
def bufferRoom (capacity : Nat) : Nat := T.size * capacity % sizeMax / T.size

def usesStorage (v : SmallVectorBase) : Bool := v.buffer = v.storage

/-- The items are moved only out of a buffer on the heap. -/
def reserve (s : State α) (newCapacity : Nat) : State α :=
  if newCapacity ≤ s.vector.capacity then s
  else
    let newBuffer := s.memory.next
    let memory := s.memory.allocate (bufferRoom T newCapacity)
    let memory :=
      if usesStorage s.vector then memory
      else (memory.moveEach T.moved s.vector.beginIt ⟨newBuffer, 0⟩ s.vector.size).free
        s.vector.buffer
    { memory := memory
      vector := { s.vector with buffer := newBuffer, capacity := newCapacity } }

/-- Twice the capacity is reserved, whatever size is asked for. -/
def grow (newSize : Nat) (s : State α) : Option (State α) :=
  if newSize > s.vector.capacity then some (reserve T s (s.vector.capacity * 2 % sizeMax))
  else some s

/-! ### States -/

/-- A vector with room for `k` items in its storage; a buffer on the heap has more. -/
structure Placed (k : Nat) (m : SlotMemory α) (v : SmallVectorBase) : Prop where
  pos : 1 ≤ k
  bytes : T.size * v.capacity < sizeMax
  storage : m.room v.storage = k
  room : m.room v.buffer = v.capacity
  fits : v.size ≤ v.capacity
  heap : v.buffer ≠ v.storage → k < v.capacity
  allocated : v.buffer < m.next ∧ v.storage < m.next

variable {T} {k n : Nat} {s : State α} {items : List α}

theorem Placed.capacity {m : SlotMemory α} {v : SmallVectorBase} (h : Placed T k m v)
    (huses : v.buffer = v.storage) : v.capacity = k := by
  rw [← h.room, huses, h.storage]

theorem bufferRoom_eq (h : T.size * n < sizeMax) : bufferRoom T n = n := by
  rw [bufferRoom, Nat.mod_eq_of_lt h, Nat.mul_div_cancel_left _ T.sized]

theorem bufferRoom_lt (h : ¬T.size * n < sizeMax) : bufferRoom T n < n := by
  have hmod : T.size * n % sizeMax < T.size * n :=
    Nat.lt_of_lt_of_le (Nat.mod_lt _ (by decide)) (Nat.le_of_not_lt h)
  exact Nat.div_lt_of_lt_mul hmod

/-- Doubled over the limit, a buffer has less room than before. -/
theorem bufferRoom_double {capacity : Nat} (hbytes : T.size * capacity < sizeMax)
    (h : ¬T.size * (capacity * 2) < sizeMax) : bufferRoom T (capacity * 2) < capacity := by
  have hdouble : T.size * (capacity * 2) = T.size * capacity * 2 := (Nat.mul_assoc _ _ _).symm
  have hmod : T.size * capacity * 2 % sizeMax < T.size * capacity := by
    rw [hdouble] at h
    rw [sizeMax] at *
    omega
  rw [bufferRoom, hdouble]
  exact Nat.div_lt_of_lt_mul hmod

/-! ### Making room -/

/-- The vector has room for `n` items, and it holds what it held; nothing was assigned to raw
memory that must not be. -/
structure Keeps (T : ItemType α) (n : Nat) (s s' : State α) : Prop where
  capacity : n ≤ s'.vector.capacity
  room : n ≤ s'.memory.room s'.vector.buffer
  contents : s'.contents = s.contents
  assigns : T.assignsRaw = true ∨ s'.memory.raw = s.memory.raw

theorem Keeps.refl (hp : Placed T k s.memory s.vector) (h : n ≤ s.vector.capacity) :
    Keeps T n s s :=
  ⟨h, by rw [hp.room]; exact h, rfl, Or.inr rfl⟩

/-- Out of the storage nothing is moved. -/
theorem reserve_storage (huses : s.vector.buffer = s.vector.storage) (h : ¬n ≤ s.vector.capacity) :
    reserve T s n =
      { memory := s.memory.allocate (bufferRoom T n)
        vector := { s.vector with buffer := s.memory.next, capacity := n } } := by
  simp [reserve, if_neg h, usesStorage, huses]

theorem reserve_heap (hheap : s.vector.buffer ≠ s.vector.storage) (h : ¬n ≤ s.vector.capacity) :
    reserve T s n =
      { memory := ((s.memory.allocate (bufferRoom T n)).moveEach T.moved s.vector.beginIt
          ⟨s.memory.next, 0⟩ s.vector.size).free s.vector.buffer
        vector := { s.vector with buffer := s.memory.next, capacity := n } } := by
  simp [reserve, if_neg h, usesStorage, hheap]

theorem reserve_room (hp : Placed T k s.memory s.vector) (h : ¬n ≤ s.vector.capacity) :
    (reserve T s n).memory.room (reserve T s n).vector.buffer = bufferRoom T n ∧
      (reserve T s n).vector.capacity = n := by
  have hne := Nat.ne_of_gt hp.allocated.1
  by_cases huses : s.vector.buffer = s.vector.storage
  · rw [reserve_storage huses h]
    exact ⟨Function.update_self _ _ _, rfl⟩
  · rw [reserve_heap huses h]
    refine ⟨?_, rfl⟩
    simp only [SlotMemory.free, SlotMemory.moveEach_room, SlotMemory.allocate,
      Function.update_of_ne hne, Function.update_self]

theorem reserve_storage_contents (huses : s.vector.buffer = s.vector.storage)
    (h : ¬n ≤ s.vector.capacity) :
    (reserve T s n).contents = List.replicate s.vector.size none := by
  rw [reserve_storage huses h]
  refine List.eq_replicate_iff.mpr ⟨by simp [State.contents, SlotMemory.contents], ?_⟩
  intro item hitem
  simp only [State.contents, SlotMemory.contents, List.mem_map] at hitem
  obtain ⟨i, _, rfl⟩ := hitem
  exact SlotMemory.read_allocate_self rfl

theorem reserve_heap_contents (hp : Placed T k s.memory s.vector)
    (hheap : s.vector.buffer ≠ s.vector.storage) (h : ¬n ≤ s.vector.capacity)
    (hbytes : T.size * n < sizeMax) : (reserve T s n).contents = s.contents := by
  have hfits := hp.fits
  have hne : s.vector.beginIt.buffer ≠ s.memory.next := Nat.ne_of_lt hp.allocated.1
  rw [reserve_heap hheap h]
  refine SlotMemory.contents_congr fun i hi => ?_
  replace hi : i < s.vector.size := hi
  have hwithin : (s.memory.allocate (bufferRoom T n)).Within
      ((⟨s.memory.next, 0⟩ : Slot).add i) := by
    simp only [SlotMemory.Within, SlotMemory.allocate, Slot.add_index, Slot.add_buffer,
      Function.update_self, bufferRoom_eq hbytes]
    omega
  show ((SlotMemory.moveEach _ _ _ _ _).free s.vector.buffer).read
    ((⟨s.memory.next, 0⟩ : Slot).add i) = _
  rw [SlotMemory.read_free_of_ne (Ne.symm hne),
    SlotMemory.read_moveEach_target T.moved hne hi hwithin,
    SlotMemory.read_allocate_of_ne (s := s.vector.beginIt.add i) hne]

/-- All items of a vector on the heap are assigned to raw memory. -/
theorem reserve_heap_raw (hheap : s.vector.buffer ≠ s.vector.storage) (h : ¬n ≤ s.vector.capacity)
    (hp : Placed T k s.memory s.vector) :
    (reserve T s n).memory.raw = s.memory.raw ↔ s.vector.size = 0 := by
  have hne : s.vector.beginIt.buffer ≠ s.memory.next := Nat.ne_of_lt hp.allocated.1
  have hnone : ∀ i : Nat,
      (s.memory.allocate (bufferRoom T n)).read ((⟨s.memory.next, 0⟩ : Slot).add i) = none :=
    fun i => SlotMemory.read_allocate_self rfl
  rw [reserve_heap hheap h]
  refine (SlotMemory.moveEach_raw_iff (m := s.memory.allocate (bufferRoom T n)) T.moved hne).trans ?_
  simp only [hnone, Option.isSome_none, Bool.false_eq_true, imp_false, Nat.not_lt]
  exact ⟨fun hall => Nat.le_zero.mp (hall 0), fun hzero i => by omega⟩

/-- A request for more than the capacity is met for an empty vector, or for one on the heap whose
items may be assigned to raw memory, and its bytes must not be too many. Items in the storage lose
their place. -/
theorem reserve_keeps_iff (hp : Placed T k s.memory s.vector) (hs : s.contents = items.map some) :
    Keeps T n s (reserve T s n) ↔ n ≤ s.vector.capacity ∨
      ((items = [] ∨ (s.vector.buffer ≠ s.vector.storage ∧ T.assignsRaw = true)) ∧
        T.size * n < sizeMax) := by
  have hsize : s.vector.size = items.length := (SlotMemory.contents_eq_iff.mp hs).1
  by_cases hle : n ≤ s.vector.capacity
  · have hsame : reserve T s n = s := if_pos hle
    rw [hsame]
    exact ⟨fun _ => Or.inl hle, fun _ => Keeps.refl hp hle⟩
  · obtain ⟨hroom, hcapacity⟩ := reserve_room (T := T) hp hle
    rw [or_iff_right hle]
    constructor
    · intro h
      refine ⟨?_, ?_⟩
      · by_cases huses : s.vector.buffer = s.vector.storage
        · left
          have hcontents := h.contents
          rw [reserve_storage_contents huses hle, hs] at hcontents
          cases items with
          | nil => rfl
          | cons x xs =>
            rw [hsize, List.length_cons, List.replicate_succ, List.map_cons] at hcontents
            exact absurd (List.cons.inj hcontents).1 (by simp)
        · refine h.assigns.symm.imp (fun hraw => ?_) fun hassigns => ⟨huses, hassigns⟩
          rw [← List.length_eq_zero_iff, ← hsize]
          exact (reserve_heap_raw huses hle hp).mp hraw
      · by_contra hbytes
        have hlt := bufferRoom_lt hbytes
        have hle' := h.room
        omega
    · rintro ⟨hor, hbytes⟩
      refine ⟨Nat.le_of_eq hcapacity.symm, Nat.le_of_eq (hroom.trans (bufferRoom_eq hbytes)).symm,
        ?_, ?_⟩
      · by_cases huses : s.vector.buffer = s.vector.storage
        · have hnil : items = [] := hor.resolve_right fun hheap => hheap.1 huses
          rw [reserve_storage_contents huses hle, hs, hsize, hnil]
          rfl
        · exact reserve_heap_contents hp huses hle hbytes
      · by_cases huses : s.vector.buffer = s.vector.storage
        · rw [reserve_storage huses hle]
          exact Or.inr rfl
        · refine hor.symm.imp (fun hheap => hheap.2) fun hnil => ?_
          rw [reserve_heap_raw huses hle hp, hsize, hnil]
          rfl

/-- The request is met from twice the capacity or not at all. -/
theorem grow_keeps_iff (hp : Placed T k s.memory s.vector) (hs : s.contents = items.map some) :
    (∃ s', grow T n s = some s' ∧ Keeps T n s s') ↔ n ≤ s.vector.capacity ∨
      (n ≤ s.vector.capacity * 2 ∧
        (items = [] ∨ (s.vector.buffer ≠ s.vector.storage ∧ T.assignsRaw = true)) ∧
        T.size * (s.vector.capacity * 2) < sizeMax) := by
  by_cases hle : n ≤ s.vector.capacity
  · have hgrow : grow T n s = some s := if_neg (Nat.not_lt.mpr hle)
    exact ⟨fun _ => Or.inl hle, fun _ => ⟨s, hgrow, Keeps.refl hp hle⟩⟩
  · have hgrow : grow T n s = some (reserve T s (s.vector.capacity * 2 % sizeMax)) :=
      if_pos (Nat.lt_of_not_le hle)
    have hword : ∀ {c : Nat}, T.size * c < sizeMax → c < sizeMax := fun hc =>
      Nat.lt_of_le_of_lt (Nat.le_mul_of_pos_left _ T.sized) hc
    have hcapacity := hword hp.bytes
    rw [or_iff_right hle, hgrow]
    constructor
    · rintro ⟨s', hs', h⟩
      cases hs'
      have hmore : ¬s.vector.capacity * 2 % sizeMax ≤ s.vector.capacity := by
        intro hless
        rw [reserve, if_pos hless] at h
        exact hle h.capacity
      have hwrap : s.vector.capacity * 2 % sizeMax = s.vector.capacity * 2 := by
        rw [sizeMax] at *
        omega
      rw [hwrap] at h hmore
      obtain ⟨hroom, hsame⟩ := reserve_room (T := T) hp hmore
      have hbytes : T.size * (s.vector.capacity * 2) < sizeMax := by
        by_contra hover
        have hless := bufferRoom_double hp.bytes hover
        have hrequest := h.room
        omega
      have hkeeps : Keeps T (s.vector.capacity * 2) s (reserve T s (s.vector.capacity * 2)) :=
        ⟨Nat.le_of_eq hsame.symm, Nat.le_of_eq (hroom.trans (bufferRoom_eq hbytes)).symm,
          h.contents, h.assigns⟩
      refine ⟨?_, ((reserve_keeps_iff hp hs).mp hkeeps).resolve_left hmore⟩
      rw [← hsame]
      exact h.capacity
    · rintro ⟨hdouble, hor, hbytes⟩
      rw [Nat.mod_eq_of_lt (hword hbytes)]
      have hkeeps := (reserve_keeps_iff (n := s.vector.capacity * 2) hp hs).mpr
        (Or.inr ⟨hor, hbytes⟩)
      exact ⟨_, rfl, Nat.le_trans hdouble hkeeps.capacity, Nat.le_trans hdouble hkeeps.room,
        hkeeps.contents, hkeeps.assigns⟩

/-- `reserve` and `grow` make room and keep the contents exactly within these conditions. -/
theorem makesRoom_iff (hp : Placed T k s.memory s.vector) (hs : s.contents = items.map some)
    (n : Nat) :
    (Keeps T n s (reserve T s n) ↔ n ≤ s.vector.capacity ∨
      ((items = [] ∨ (s.vector.buffer ≠ s.vector.storage ∧ T.assignsRaw = true)) ∧
        T.size * n < sizeMax)) ∧
    ((∃ s', grow T n s = some s' ∧ Keeps T n s s') ↔ n ≤ s.vector.capacity ∨
      (n ≤ s.vector.capacity * 2 ∧
        (items = [] ∨ (s.vector.buffer ≠ s.vector.storage ∧ T.assignsRaw = true)) ∧
        T.size * (s.vector.capacity * 2) < sizeMax)) :=
  ⟨reserve_keeps_iff hp hs, grow_keeps_iff hp hs⟩

theorem ofItems_placed {k : Nat} {items : List α} (hk : 1 ≤ k) (hbytes : T.size * k < sizeMax)
    (hfits : items.length ≤ k) :
    Placed T k (SmallVector.ofItems k items).memory (SmallVector.ofItems k items).vector where
  pos := hk
  bytes := hbytes
  storage := rfl
  room := rfl
  fits := hfits
  heap h := absurd rfl h
  allocated := ⟨Nat.one_pos, Nat.one_pos⟩

theorem makesRoom_iff_two :
    let s := SmallVector.ofItems 2 [1, 2]
    (Keeps SmallVector.number 3 s (reserve SmallVector.number s 3) ↔
      3 ≤ 2 ∨ (([1, 2] = [] ∨ (0 ≠ 0 ∧ true = true)) ∧ 4 * 3 < 2 ^ 64)) ∧
    ((∃ s', grow SmallVector.number 3 s = some s' ∧ Keeps SmallVector.number 3 s s') ↔
      3 ≤ 2 ∨ (3 ≤ 2 * 2 ∧ ([1, 2] = [] ∨ (0 ≠ 0 ∧ true = true)) ∧ 4 * (2 * 2) < 2 ^ 64)) :=
  makesRoom_iff (T := SmallVector.number) (ofItems_placed (by decide) (by decide) (by decide))
    (SmallVector.ofItems_holds (by decide)).contents 3

/-- The first buffer on the heap gets none of the items, and a request for more than twice the
capacity is not met. -/
theorem first_growth :
    ((grow SmallVector.number 3 (SmallVector.ofItems 2 [1, 2])).map State.contents =
        some [none, none] ∧
      ¬∃ s', grow SmallVector.number 3 (SmallVector.ofItems 2 [1, 2]) = some s' ∧
        Keeps SmallVector.number 3 (SmallVector.ofItems 2 [1, 2]) s') ∧
    (grow SmallVector.number 5 (SmallVector.ofItems 2 [])).map (·.vector.capacity) = some 4 := by
  have hcontents : (grow SmallVector.number 3 (SmallVector.ofItems 2 [1, 2])).map State.contents =
      some [none, none] := by decide
  refine ⟨⟨hcontents, ?_⟩, by decide⟩
  rintro ⟨s', hs', h⟩
  rw [hs', Option.map_some, h.contents] at hcontents
  exact absurd hcontents (by decide)

/-! ### Exchanging two vectors -/

/-- `swap_array_items` -/
def swapArrayItems (m : SlotMemory α) (v other : SmallVectorBase) : SlotMemory α :=
  let commonSize := min v.size other.size
  let m := m.exchangeEach v.beginIt other.beginIt commonSize
  if v.size > other.size then
    m.moveEach T.moved (v.beginIt.add commonSize) (other.beginIt.add commonSize)
      (v.size - commonSize)
  else
    m.moveEach T.moved (other.beginIt.add commonSize) (v.beginIt.add commonSize)
      (other.size - commonSize)

/-- With one of the vectors in its storage the items are exchanged, and the buffers as well. -/
def swap (m : SlotMemory α) (v other : SmallVectorBase) :
    SlotMemory α × SmallVectorBase × SmallVectorBase :=
  let (m, newBuffer, otherNewBuffer) :=
    if usesStorage v || usesStorage other then
      (swapArrayItems (T := T) m v other,
        if usesStorage other then v.storage else other.buffer,
        if usesStorage v then other.storage else v.buffer)
    else (m, other.buffer, v.buffer)
  (m, { v with buffer := newBuffer, capacity := other.capacity, size := other.size },
    { other with buffer := otherNewBuffer, capacity := v.capacity, size := v.size })

/-- The buffers on the heap that a vector owns. -/
def owned (v : SmallVectorBase) : List Nat := if usesStorage v then [] else [v.buffer]

/-- Each vector holds what the other held, in a buffer of its own with room for it; nothing is
written outside of the buffers or assigned to raw memory that must not be, and each buffer on the
heap has one owner. -/
structure Exchanged (T : ItemType α) (m : SlotMemory α) (v other : SmallVectorBase) (items others : List α)
    (m' : SlotMemory α) (v' other' : SmallVectorBase) : Prop where
  contents : m'.contents v'.beginIt v'.size = others.map some
  contents_other : m'.contents other'.beginIt other'.size = items.map some
  fits : v'.size ≤ v'.capacity ∧ v'.capacity = m'.room v'.buffer
  fits_other : other'.size ≤ other'.capacity ∧ other'.capacity = m'.room other'.buffer
  written : ∀ w ∈ m'.written.drop m.written.length, m.Within w
  assigns : T.assignsRaw = true ∨ m'.raw = m.raw
  owners : (owned v' ++ owned other').Perm (owned v ++ owned other)

/-- Two vectors, with their items, that share no storage and no buffer. -/
structure TwoVectors (T : ItemType α) (k : Nat) (m : SlotMemory α) (v other : SmallVectorBase)
    (items others : List α) : Prop where
  placed : Placed T k m v
  placed_other : Placed T k m other
  contents : m.contents v.beginIt v.size = items.map some
  contents_other : m.contents other.beginIt other.size = others.map some
  storages : v.storage ≠ other.storage
  apart : v.buffer ≠ other.buffer
  buffer_ne : v.buffer ≠ other.storage
  other_ne : other.buffer ≠ v.storage

/-- The items behind the common length are assigned to slots of the other vector: each has an item
still, or raw memory will do. -/
def Assignable (T : ItemType α) (m : SlotMemory α) (v other : SmallVectorBase) : Prop :=
  T.assignsRaw = true ∨
    (∀ i : Nat, other.size ≤ i → i < v.size → (m.read (other.beginIt.add i)).isSome) ∧
    (∀ i : Nat, v.size ≤ i → i < other.size → (m.read (v.beginIt.add i)).isSome)

/-! What the exchange of the items alone does: `x` with `a` items and `y` with `b` items get each
other's, the ones behind the common length by a move. -/

structure ItemsSwapped (T : ItemType α) (m m' : SlotMemory α) (x y : Slot) (a b : Nat) : Prop where
  room : m'.room = m.room
  common : ∀ i < min a b, m.Within (x.add i) → m.Within (y.add i) →
    m'.read (x.add i) = m.read (y.add i) ∧ m'.read (y.add i) = m.read (x.add i)
  to_right : ∀ i : Nat, b ≤ i → i < a → m.Within (y.add i) → m'.read (y.add i) = m.read (x.add i)
  from_left : ∀ i : Nat, b ≤ i → i < a → m.Within (x.add i) →
    m'.read (x.add i) = (m.read (x.add i)).map T.moved
  to_left : ∀ i : Nat, a ≤ i → i < b → m.Within (x.add i) → m'.read (x.add i) = m.read (y.add i)
  from_right : ∀ i : Nat, a ≤ i → i < b → m.Within (y.add i) →
    m'.read (y.add i) = (m.read (y.add i)).map T.moved
  frame : ∀ r : Slot, (∀ i < max a b, r ≠ x.add (i : Nat) ∧ r ≠ y.add (i : Nat)) →
    m'.read r = m.read r
  written : ∃ ws, m'.written = m.written ++ ws ∧
    ∀ w, w ∈ ws ↔ ∃ i < max a b, w = x.add (i : Nat) ∨ w = y.add (i : Nat)
  raw : (∀ i : Nat, i < min a b → (m.read (x.add i)).isSome ∧ (m.read (y.add i)).isSome) →
    (m'.raw = m.raw ↔ (∀ i : Nat, b ≤ i → i < a → (m.read (y.add i)).isSome) ∧
      ∀ i : Nat, a ≤ i → i < b → (m.read (x.add i)).isSome)

variable {m m' : SlotMemory α} {x y : Slot} {a b : Nat}

theorem ItemsSwapped.symm (h : ItemsSwapped T m m' x y a b) : ItemsSwapped T m m' y x b a where
  room := h.room
  common i hi hy hx := (h.common i (by omega) hx hy).symm
  to_right := h.to_left
  from_left := h.from_right
  to_left := h.to_right
  from_right := h.from_left
  frame r hr := h.frame r fun i hi => (hr i (by omega)).symm
  written := by
    obtain ⟨ws, hws, hmem⟩ := h.written
    refine ⟨ws, hws, fun w => ?_⟩
    rw [hmem, Nat.max_comm]
    exact exists_congr fun i => and_congr_right fun _ => or_comm
  raw hitems := (h.raw fun i hi => (hitems i (by omega)).symm).trans and_comm

theorem itemsSwapped_common (hne : x.buffer ≠ y.buffer) (count : Nat) :
    ItemsSwapped T m (m.exchangeEach x y count) x y count count where
  room := SlotMemory.exchangeEach_room count
  common i hi hx hy := SlotMemory.read_exchangeEach hne (by omega) hx hy
  to_right i hi hlt := absurd hlt (Nat.not_lt.mpr hi)
  from_left i hi hlt := absurd hlt (Nat.not_lt.mpr hi)
  to_left i hi hlt := absurd hlt (Nat.not_lt.mpr hi)
  from_right i hi hlt := absurd hlt (Nat.not_lt.mpr hi)
  frame r hr := SlotMemory.read_exchangeEach_of_ne fun i hi => hr i (by omega)
  written := by
    refine ⟨_, SlotMemory.exchangeEach_written count, fun w => ?_⟩
    rw [SlotMemory.mem_pairs, Nat.max_self]
  raw hitems := by
    rw [Nat.min_self] at hitems
    refine iff_of_true (SlotMemory.exchangeEach_raw hne hitems) ⟨?_, ?_⟩
    · exact fun i hi hlt => absurd hlt (Nat.not_lt.mpr hi)
    · exact fun i hi hlt => absurd hlt (Nat.not_lt.mpr hi)

/-- What stands behind the common length has not moved yet. -/
theorem ItemsSwapped.behind (h : ItemsSwapped T m m' x y b b) (hne : x.buffer ≠ y.buffer) {i : Nat}
    (hi : b ≤ i) : m'.read (x.add i) = m.read (x.add i) ∧ m'.read (y.add i) = m.read (y.add i) := by
  constructor
  · refine h.frame _ fun j hj => ⟨SlotMemory.add_ne_add (by omega), ?_⟩
    exact SlotMemory.add_ne_of_buffer hne _ _
  · refine h.frame _ fun j hj => ⟨?_, SlotMemory.add_ne_add (by omega)⟩
    exact (SlotMemory.add_ne_of_buffer hne _ _).symm

theorem add_behind {s : Slot} {i : Nat} (hi : b ≤ i) : s.add i = (s.add b).add (i - b : Nat) := by
  rw [Slot.add_add]
  congr 1
  omega

/-- A move of items behind the first ones leaves these alone. -/
theorem read_moveEach_behind (moved : α → α) {d : Nat} {r : Slot}
    (hr : ∀ i : Nat, b ≤ i → i < b + d → r ≠ x.add i ∧ r ≠ y.add i) :
    (m.moveEach moved (x.add b) (y.add b) d).read r = m.read r := by
  refine SlotMemory.read_moveEach_of_ne moved fun j hj => ?_
  rw [Slot.add_add, Slot.add_add, ← Int.natCast_add]
  exact hr (b + j) (by omega) (by omega)

theorem mem_pairs_behind {d : Nat} {w : Slot} :
    w ∈ SlotMemory.pairs (x.add b) (y.add b) d ↔
      ∃ i : Nat, b ≤ i ∧ i < b + d ∧ (w = x.add i ∨ w = y.add i) := by
  rw [SlotMemory.mem_pairs]
  constructor
  · rintro ⟨i, hi, hw⟩
    rw [Slot.add_add, Slot.add_add, ← Int.natCast_add] at hw
    exact ⟨b + i, by omega, by omega, hw⟩
  · rintro ⟨i, hge, hlt, hw⟩
    refine ⟨i - b, by omega, ?_⟩
    rw [← add_behind hge, ← add_behind hge]
    exact hw

/-- The items behind the common length follow. -/
theorem ItemsSwapped.moved (h : ItemsSwapped T m m' x y b b) (hne : x.buffer ≠ y.buffer)
    (d : Nat) :
    ItemsSwapped T m (m'.moveEach T.moved (x.add b) (y.add b) d) x y (b + d) b where
  room := by rw [SlotMemory.moveEach_room, h.room]
  common i hi hx hy := by
    rw [read_moveEach_behind T.moved fun j hj _ =>
        ⟨SlotMemory.add_ne_add (by omega), SlotMemory.add_ne_of_buffer hne _ _⟩,
      read_moveEach_behind T.moved fun j hj _ =>
        ⟨(SlotMemory.add_ne_of_buffer hne _ _).symm, SlotMemory.add_ne_add (by omega)⟩]
    exact h.common i (by omega) hx hy
  to_right i hi hlt hy := by
    have hwithin : m'.Within ((y.add b).add (i - b : Nat)) := by
      rw [← add_behind hi, SlotMemory.Within, h.room]
      exact hy
    have hne' : (x.add b).buffer ≠ (y.add b).buffer := hne
    rw [add_behind hi, SlotMemory.read_moveEach_target T.moved hne' (by omega) hwithin,
      ← add_behind hi]
    exact (h.behind hne hi).1
  from_left i hi hlt hx := by
    have hwithin : m'.Within ((x.add b).add (i - b : Nat)) := by
      rw [← add_behind hi, SlotMemory.Within, h.room]
      exact hx
    have hne' : (x.add b).buffer ≠ (y.add b).buffer := hne
    rw [add_behind hi, SlotMemory.read_moveEach_source T.moved hne' (by omega) hwithin,
      ← add_behind hi, (h.behind hne hi).1]
  to_left i hi hlt := absurd hlt (by omega)
  from_right i hi hlt := absurd hlt (by omega)
  frame r hr := by
    rw [read_moveEach_behind T.moved fun j _ hj => hr j (by omega)]
    exact h.frame r fun j hj => hr j (by omega)
  written := by
    obtain ⟨ws, hws, hmem⟩ := h.written
    refine ⟨ws ++ SlotMemory.pairs (x.add b) (y.add b) d, ?_, fun w => ?_⟩
    · rw [SlotMemory.moveEach_written, hws, List.append_assoc]
    · rw [List.mem_append, hmem, mem_pairs_behind]
      constructor
      · rintro (⟨i, hi, hw⟩ | ⟨i, -, hlt, hw⟩)
        · exact ⟨i, by omega, hw⟩
        · exact ⟨i, by omega, hw⟩
      · rintro ⟨i, hi, hw⟩
        rcases Nat.lt_or_ge i b with hlt | hge
        · exact Or.inl ⟨i, by omega, hw⟩
        · exact Or.inr ⟨i, hge, by omega, hw⟩
  raw hitems := by
    have hsame : m'.raw = m.raw := by
      refine (h.raw fun i hi => hitems i (by omega)).mpr ⟨?_, ?_⟩
      · exact fun i hi hlt => absurd hlt (Nat.not_lt.mpr hi)
      · exact fun i hi hlt => absurd hlt (Nat.not_lt.mpr hi)
    have hne' : (x.add b).buffer ≠ (y.add b).buffer := hne
    rw [← hsame, SlotMemory.moveEach_raw_iff T.moved hne']
    constructor
    · intro hall
      refine ⟨fun i hi hlt => ?_, fun i hi hlt => absurd hlt (by omega)⟩
      rw [← (h.behind hne hi).2, add_behind hi]
      exact hall (i - b) (by omega)
    · intro hall i hi
      rw [Slot.add_add, ← Int.natCast_add, (h.behind hne (Nat.le_add_right b i)).2]
      exact hall.1 (b + i) (by omega) (by omega)

theorem swapArrayItems_swapped {v other : SmallVectorBase} (hne : v.buffer ≠ other.buffer) :
    ItemsSwapped T m (swapArrayItems (T := T) m v other) v.beginIt other.beginIt v.size
      other.size := by
  have hcommon : ItemsSwapped T m (m.exchangeEach v.beginIt other.beginIt (min v.size other.size))
      v.beginIt other.beginIt (min v.size other.size) (min v.size other.size) :=
    itemsSwapped_common hne _
  rw [swapArrayItems]
  by_cases hlonger : v.size > other.size
  · have hmin : min v.size other.size = other.size := by omega
    have hsum : other.size + (v.size - other.size) = v.size := by omega
    rw [hmin] at hcommon
    have hmoved := hcommon.moved hne (v.size - other.size)
    rw [hsum] at hmoved
    rw [if_pos hlonger, hmin]
    exact hmoved
  · have hmin : min v.size other.size = v.size := by omega
    have hsum : v.size + (other.size - v.size) = other.size := by omega
    rw [hmin] at hcommon
    have hmoved := hcommon.symm.moved (Ne.symm hne) (other.size - v.size)
    rw [hsum] at hmoved
    rw [if_neg hlonger, hmin]
    exact hmoved.symm

variable {v other v' other' : SmallVectorBase} {others : List α}

theorem Placed.within (h : Placed T k m v) {i : Nat} (hi : i < v.capacity) :
    m.Within (v.beginIt.add i) := by
  simp only [SlotMemory.Within, beginIt, ptr, Slot.add_index, Slot.add_buffer, h.room]
  omega

theorem TwoVectors.symm (h : TwoVectors T k m v other items others) :
    TwoVectors T k m other v others items :=
  ⟨h.placed_other, h.placed, h.contents_other, h.contents, h.storages.symm, h.apart.symm, h.other_ne,
    h.buffer_ne⟩

theorem Exchanged.symm (h : Exchanged T m v other items others m' v' other') :
    Exchanged T m other v others items m' other' v' :=
  ⟨h.contents_other, h.contents, h.fits_other, h.fits, h.written, h.assigns,
    List.perm_append_comm.trans (h.owners.trans List.perm_append_comm)⟩

theorem Assignable.symm (h : Assignable T m v other) : Assignable T m other v := h.imp id And.symm

theorem TwoVectors.size (h : TwoVectors T k m v other items others) :
    v.size = items.length ∧ other.size = others.length :=
  ⟨(SlotMemory.contents_eq_iff.mp h.contents).1, (SlotMemory.contents_eq_iff.mp h.contents_other).1⟩

/-- Up to the common length both vectors have items. -/
theorem TwoVectors.assigns_iff (H : TwoVectors T k m v other items others)
    (h : ItemsSwapped T m m' v.beginIt other.beginIt v.size other.size) :
    (T.assignsRaw = true ∨ m'.raw = m.raw) ↔ Assignable T m v other := by
  obtain ⟨hsize, hitem⟩ := SlotMemory.contents_eq_iff.mp H.contents
  obtain ⟨hsize', hitem'⟩ := SlotMemory.contents_eq_iff.mp H.contents_other
  refine or_congr Iff.rfl (h.raw fun i hi => ?_)
  rw [hitem i (by omega), hitem' i (by omega)]
  exact ⟨rfl, rfl⟩

theorem ItemsSwapped.contents_left (h : ItemsSwapped T m m' x y a b)
    (hx : ∀ i < b, m.Within (x.add (i : Nat))) (hy : ∀ i < b, m.Within (y.add (i : Nat))) :
    m'.contents x b = m.contents y b := by
  refine SlotMemory.contents_congr fun i hi => ?_
  rcases Nat.lt_or_ge i a with hlt | hge
  · exact (h.common i (by omega) (hx i hi) (hy i hi)).1
  · exact h.to_left i hge hi (hx i hi)

theorem exchanged_storages (H : TwoVectors T k m v other items others)
    (hv : v.buffer = v.storage) (ho : other.buffer = other.storage)
    (h : ItemsSwapped T m m' v.beginIt other.beginIt v.size other.size)
    (hassigns : Assignable T m v other) :
    Exchanged T m v other items others m'
      { v with capacity := other.capacity, size := other.size }
      { other with capacity := v.capacity, size := v.size } := by
  have hvk := H.placed.capacity hv
  have hok := H.placed_other.capacity ho
  have hvfits := H.placed.fits
  have hofits := H.placed_other.fits
  have hvin : ∀ {i : Nat}, i < k → m.Within (v.beginIt.add i) := fun hi =>
    H.placed.within (by omega)
  have hoin : ∀ {i : Nat}, i < k → m.Within (other.beginIt.add i) := fun hi =>
    H.placed_other.within (by omega)
  obtain ⟨ws, hws, hmem⟩ := h.written
  refine ⟨?_, ?_, ⟨?_, ?_⟩, ⟨?_, ?_⟩, ?_, (H.assigns_iff h).mpr hassigns, ?_⟩
  · rw [← H.contents_other]
    exact h.contents_left (fun i hi => hvin (by omega)) fun i hi => hoin (by omega)
  · rw [← H.contents]
    exact h.symm.contents_left (fun i hi => hoin (by omega)) fun i hi => hvin (by omega)
  · exact hofits
  · show other.capacity = m'.room v.buffer
    rw [h.room, H.placed.room, hvk, hok]
  · exact hvfits
  · show v.capacity = m'.room other.buffer
    rw [h.room, H.placed_other.room, hvk, hok]
  · intro w hw
    rw [hws, List.drop_left, hmem] at hw
    obtain ⟨i, hi, rfl | rfl⟩ := hw
    · exact hvin (by omega)
    · exact hoin (by omega)
  · exact List.Perm.refl _

/-- In the mixed case the buffers are exchanged on top of the items. That comes out right when the
items on the heap would fit in the storage, the vectors agree on their common length, a move
leaves the other items on the heap as they are, and the unused storage of the vector on the heap
happens to hold the items of the one in its storage. -/
structure MixedRight (T : ItemType α) (k : Nat) (m : SlotMemory α) (heap : SmallVectorBase)
    (items others : List α) : Prop where
  fits : others.length ≤ k
  common : items.take others.length = others.take items.length
  moved : (others.drop items.length).map T.moved = others.drop items.length
  unused : m.contents ⟨heap.storage, 0⟩ items.length = items.map some

theorem ItemsSwapped.contents_right (h : ItemsSwapped T m m' x y items.length others.length)
    (hx : ∀ i < items.length, m.Within (x.add (i : Nat)))
    (hy : ∀ i < others.length, m.Within (y.add (i : Nat)))
    (hitems : m.contents x items.length = items.map some)
    (hothers : m.contents y others.length = others.map some) :
    m'.contents y others.length =
      (items.take others.length ++ (others.drop items.length).map T.moved).map some := by
  have hitem := (SlotMemory.contents_eq_iff.mp hitems).2
  have hother := (SlotMemory.contents_eq_iff.mp hothers).2
  refine SlotMemory.contents_eq_iff.mpr ⟨by simp; omega, fun i hi => ?_⟩
  simp only [List.length_append, List.length_take, List.length_map, List.length_drop] at hi
  rcases Nat.lt_or_ge i items.length with hlt | hge
  · rw [(h.common i (by omega) (hx i hlt) (hy i (by omega))).2, hitem i hlt,
      List.getElem_append_left (by simp; omega), List.getElem_take]
  · rw [h.from_right i hge (by omega) (hy i (by omega)), hother i (by omega), Option.map_some,
      List.getElem_append_right (by simp; omega), List.getElem_map, List.getElem_drop]
    congr 3
    simp
    omega

/-- What a vector on the heap is left with is what it held when the swap makes no difference. -/
theorem swapped_eq_iff (T : ItemType α) (items others : List α) :
    items.take others.length ++ (others.drop items.length).map T.moved = others ↔
      items.take others.length = others.take items.length ∧
        (others.drop items.length).map T.moved = others.drop items.length := by
  constructor
  · intro heq
    refine List.append_inj (heq.trans (List.take_append_drop items.length others).symm) ?_
    rw [List.length_take, List.length_take, Nat.min_comm]
  · rintro ⟨hcommon, hmoved⟩
    rw [hcommon, hmoved, List.take_append_drop]

theorem exchanged_mixed_iff (H : TwoVectors T k m v other items others)
    (hv : v.buffer = v.storage) (ho : other.buffer ≠ other.storage)
    (h : ItemsSwapped T m m' v.beginIt other.beginIt v.size other.size) :
    Exchanged T m v other items others m'
      { v with buffer := other.buffer, capacity := other.capacity, size := other.size }
      { other with buffer := other.storage, capacity := v.capacity, size := v.size } ↔
    MixedRight T k m other items others ∧ Assignable T m v other := by
  obtain ⟨hvsize, hosize⟩ := H.size
  have hvk := H.placed.capacity hv
  have hok := H.placed_other.heap ho
  have hvfits := H.placed.fits
  have hofits := H.placed_other.fits
  have hinj := (Option.some_injective α).list_map
  have hcontents : m'.contents other.beginIt other.size =
      (items.take others.length ++ (others.drop items.length).map T.moved).map some := by
    rw [hvsize, hosize] at h
    rw [hosize]
    refine h.contents_right (fun i hi => H.placed.within (by omega))
      (fun i hi => H.placed_other.within (by omega)) ?_ ?_
    · rw [← hvsize, H.contents]
    · rw [← hosize, H.contents_other]
  have hunused : m'.contents ⟨other.storage, 0⟩ v.size = m.contents ⟨other.storage, 0⟩ v.size := by
    refine SlotMemory.contents_congr fun i hi => h.frame _ fun j hj => ⟨?_, ?_⟩
    · exact SlotMemory.add_ne_of_buffer (Ne.symm H.buffer_ne) _ _
    · exact SlotMemory.add_ne_of_buffer (Ne.symm ho) _ _
  have hagree := swapped_eq_iff T items others
  obtain ⟨ws, hws, hmem⟩ := h.written
  constructor
  · intro hex
    obtain ⟨hcommon, hmoved⟩ := hagree.mp (hinj (hcontents.symm.trans hex.contents))
    refine ⟨⟨?_, hcommon, hmoved, ?_⟩, (H.assigns_iff h).mp hex.assigns⟩
    · by_contra hlong
      have hwrite : v.beginIt.add k ∈ ws := (hmem _).mpr ⟨k, by omega, Or.inl rfl⟩
      have hwithin := hex.written (v.beginIt.add k) (by rw [hws, List.drop_left]; exact hwrite)
      have hlast := hwithin.2
      simp only [beginIt, ptr, Slot.add_index, Slot.add_buffer, H.placed.room] at hlast
      omega
    · rw [← hvsize, ← hunused]
      exact hex.contents_other
  · rintro ⟨hmixed, hassigns⟩
    have hshort := hmixed.fits
    refine ⟨?_, ?_, ⟨hofits, ?_⟩, ⟨hvfits, ?_⟩, ?_, (H.assigns_iff h).mpr hassigns, ?_⟩
    · show m'.contents other.beginIt other.size = others.map some
      rw [hcontents, hagree.mpr ⟨hmixed.common, hmixed.moved⟩]
    · show m'.contents ⟨other.storage, 0⟩ v.size = items.map some
      rw [hunused, hvsize]
      exact hmixed.unused
    · show other.capacity = m'.room other.buffer
      rw [h.room, H.placed_other.room]
    · show v.capacity = m'.room other.storage
      rw [h.room, H.placed_other.storage, hvk]
    · intro w hw
      rw [hws, List.drop_left, hmem] at hw
      obtain ⟨i, hi, rfl | rfl⟩ := hw
      · exact H.placed.within (by omega)
      · exact H.placed_other.within (by omega)
    · simp [owned, usesStorage, hv, ho, H.other_ne]

theorem exchanged_heaps (H : TwoVectors T k m v other items others)
    (hv : v.buffer ≠ v.storage) (ho : other.buffer ≠ other.storage) :
    Exchanged T m v other items others m
      { v with buffer := other.buffer, capacity := other.capacity, size := other.size }
      { other with buffer := v.buffer, capacity := v.capacity, size := v.size } := by
  refine ⟨H.contents_other, H.contents, ⟨H.placed_other.fits, H.placed_other.room.symm⟩,
    ⟨H.placed.fits, H.placed.room.symm⟩, ?_, Or.inr rfl, ?_⟩
  · intro w hw
    rw [List.drop_length] at hw
    exact absurd hw (List.not_mem_nil)
  · simp only [owned, usesStorage, hv, ho, H.buffer_ne, H.other_ne, decide_false,
      Bool.false_eq_true, if_false]
    exact List.perm_append_comm

/-- What the code leaves behind a swap is right when both vectors stand on the heap. Otherwise the
items that are moved must be assignable to the slots they come to, and then it is right when both
stand in their storage, and in the mixed cases just when it makes no difference. -/
theorem swap_iff (H : TwoVectors T k m v other items others) :
    (let r := swap (T := T) m v other
     Exchanged T m v other items others r.1 r.2.1 r.2.2) ↔
      (v.buffer ≠ v.storage ∧ other.buffer ≠ other.storage) ∨
      (Assignable T m v other ∧
        ((v.buffer = v.storage ∧ other.buffer = other.storage) ∨
          (v.buffer = v.storage ∧ MixedRight T k m other items others) ∨
          (other.buffer = other.storage ∧ MixedRight T k m v others items))) := by
  have hswapped := swapArrayItems_swapped (T := T) (m := m) H.apart
  by_cases hv : v.buffer = v.storage <;> by_cases ho : other.buffer = other.storage
  · have hswap : swap (T := T) m v other = (swapArrayItems (T := T) m v other,
        { v with capacity := other.capacity, size := other.size },
        { other with capacity := v.capacity, size := v.size }) := by
      simp [swap, usesStorage, hv, ho]
    rw [hswap]
    constructor
    · intro hex
      exact Or.inr ⟨(H.assigns_iff hswapped).mp hex.assigns, Or.inl ⟨hv, ho⟩⟩
    · intro hor
      exact exchanged_storages H hv ho hswapped (hor.resolve_left fun hheaps => hheaps.1 hv).1
  · have hswap : swap (T := T) m v other = (swapArrayItems (T := T) m v other,
        { v with buffer := other.buffer, capacity := other.capacity, size := other.size },
        { other with buffer := other.storage, capacity := v.capacity, size := v.size }) := by
      simp [swap, usesStorage, hv, ho]
    rw [hswap]
    refine (exchanged_mixed_iff H hv ho hswapped).trans ?_
    simp [hv, ho, and_comm]
  · have hswap : swap (T := T) m v other = (swapArrayItems (T := T) m v other,
        { v with buffer := v.storage, capacity := other.capacity, size := other.size },
        { other with buffer := v.buffer, capacity := v.capacity, size := v.size }) := by
      simp [swap, usesStorage, hv, ho]
    rw [hswap]
    have hmixed := exchanged_mixed_iff H.symm ho hv hswapped.symm
    have hassigns : Assignable T m other v ↔ Assignable T m v other :=
      ⟨Assignable.symm, Assignable.symm⟩
    refine Iff.trans ⟨Exchanged.symm, Exchanged.symm⟩ (hmixed.trans ?_)
    simp [hv, ho, hassigns, and_comm]
  · have hswap : swap (T := T) m v other = (m,
        { v with buffer := other.buffer, capacity := other.capacity, size := other.size },
        { other with buffer := v.buffer, capacity := v.capacity, size := v.size }) := by
      simp [swap, usesStorage, hv, ho]
    rw [hswap]
    exact iff_of_true (exchanged_heaps H hv ho) (Or.inl ⟨hv, ho⟩)

/-- The storages 0 and 1 for two items each, and the buffer 2 on the heap for four: the vector in
storage 0 holds 1, the one with the storage 1 holds 5, 6 and 7 on the heap. -/
def mixedMemory : SlotMemory Nat where
  room b := [2, 2, 4].getD b 0
  items s := ([[1], [], [5, 6, 7]].getD s.buffer [])[s.index.toNat]?
  next := 3

def inStorage : SmallVectorBase := { storage := 0, buffer := 0, capacity := 2, size := 1 }

def onHeap : SmallVectorBase := { storage := 1, buffer := 2, capacity := 4, size := 3 }

theorem twoVectors_mixed :
    TwoVectors SmallVector.number 2 mixedMemory inStorage onHeap [1] [5, 6, 7] where
  placed := ⟨by decide, by decide, rfl, rfl, by decide, by decide, by decide⟩
  placed_other := ⟨by decide, by decide, rfl, rfl, by decide, by decide, by decide⟩
  contents := by decide
  contents_other := by decide
  storages := by decide
  apart := by decide
  buffer_ne := by decide
  other_ne := by decide

theorem swap_iff_mixed :
    (let r := swap (T := SmallVector.number) mixedMemory inStorage onHeap
     Exchanged SmallVector.number mixedMemory inStorage onHeap [1] [5, 6, 7] r.1 r.2.1 r.2.2) ↔
      (0 ≠ 0 ∧ 2 ≠ 1) ∨
      (Assignable SmallVector.number mixedMemory inStorage onHeap ∧
        ((0 = 0 ∧ 2 = 1) ∨
          (0 = 0 ∧ MixedRight SmallVector.number 2 mixedMemory onHeap [1] [5, 6, 7]) ∨
          (2 = 1 ∧ MixedRight SmallVector.number 2 mixedMemory inStorage [5, 6, 7] [1]))) :=
  swap_iff twoVectors_mixed

/-- The vector that gets the heap finds its own item there, the other one its unused storage. -/
theorem swap_mixed :
    let r := swap (T := SmallVector.number) mixedMemory inStorage onHeap
    r.1.contents r.2.1.beginIt r.2.1.size = [some 1, some 6, some 7] ∧
      r.1.contents r.2.2.beginIt r.2.2.size = [none] ∧
      ¬Exchanged SmallVector.number mixedMemory inStorage onHeap [1] [5, 6, 7] r.1 r.2.1 r.2.2 := by
  intro r
  have hcontents : r.1.contents r.2.1.beginIt r.2.1.size = [some 1, some 6, some 7] := by decide
  refine ⟨hcontents, by decide, fun h => ?_⟩
  rw [h.contents] at hcontents
  exact absurd hcontents (by decide)

/-! ### Resizing -/

/-- Within the capacity the items become those of a resized vector; above it nothing changes. -/
def Resizes (T : ItemType α) (grow : Nat → State α → Option (State α)) (s : State α)
    (items : List α) (n : Nat) : Prop :=
  if n ≤ s.vector.capacity then (resize T grow s n).contents = (resized T items n).map some
  else resize T grow s n = s

theorem smallVector_resizes_iff (h : SmallVector.Holds k s items) (n : Nat) :
    Resizes T SmallVector.grow s items n ↔
      n = items.length ∨ (items.length < n ∧ n ≤ k ∧ ∀ x ∈ items, x = T.default) := by
  have hfits := h.fits
  rw [Resizes, h.capacity]
  by_cases hle : n ≤ k
  · have hgrow : (SmallVector.grow n s).getD s = s := by
      rw [SmallVector.grow, h.capacity, if_neg (Nat.not_lt.mpr hle)]
      rfl
    rw [if_pos hle, resize_iff hgrow (by rw [h.room]; exact hle) h.contents]
    simp only [hle, true_and]
  · have hgrow : (SmallVector.grow n s).getD s = s := by
      rw [SmallVector.grow, h.capacity, if_pos (Nat.lt_of_not_le hle)]
      rfl
    rw [if_neg hle]
    constructor
    · intro hsame
      have hsize := congrArg (fun s : State α => s.vector.size) hsame
      simp only [resize, hgrow, h.size] at hsize
      rw [if_pos (by omega)] at hsize
      exact absurd hsize (by show n ≠ _; omega)
    · intro hor
      omega

theorem growing_resizes_iff (hp : Placed T k s.memory s.vector) (hs : s.contents = items.map some)
    (hn : n ≤ s.vector.capacity) :
    Resizes T (grow T) s items n ↔
      n = items.length ∨ (items.length < n ∧ ∀ x ∈ items, x = T.default) := by
  have hgrow : (grow T n s).getD s = s := by
    rw [grow, if_neg (Nat.not_lt.mpr hn)]
    rfl
  rw [Resizes, if_pos hn, resize_iff hgrow (by rw [hp.room]; exact hn) hs]

/-- Both vectors resize rightly only to the size they have, or to a larger one within the capacity
when all of their items are default ones. -/
theorem resizes_iff {t : State α} (h : SmallVector.Holds k s items)
    (hp : Placed T k t.memory t.vector) (ht : t.contents = others.map some) (n : Nat) :
    (Resizes T SmallVector.grow s items n ↔
      n = items.length ∨ (items.length < n ∧ n ≤ k ∧ ∀ x ∈ items, x = T.default)) ∧
    (n ≤ t.vector.capacity → (Resizes T (grow T) t others n ↔
      n = others.length ∨ (others.length < n ∧ ∀ x ∈ others, x = T.default))) :=
  ⟨smallVector_resizes_iff h n, growing_resizes_iff hp ht⟩

theorem resizes_iff_two :
    let s := SmallVector.ofItems 4 [1, 2]
    (Resizes SmallVector.number SmallVector.grow s [1, 2] 3 ↔
      3 = 2 ∨ (2 < 3 ∧ 3 ≤ 4 ∧ ∀ x ∈ [1, 2], x = 0)) ∧
    (Resizes SmallVector.number (grow SmallVector.number) s [1, 2] 3 ↔
      3 = 2 ∨ (2 < 3 ∧ ∀ x ∈ [1, 2], x = 0)) := by
  intro s
  have hs : SmallVector.Holds 4 s [1, 2] := SmallVector.ofItems_holds (by decide)
  obtain ⟨hconstant, hgrowing⟩ := resizes_iff (T := SmallVector.number) hs
    (ofItems_placed (by decide) (by decide) (by decide)) hs.contents 3
  exact ⟨hconstant, hgrowing (by decide)⟩

/-- Growing clears the items there are, shrinking keeps the ones to go, and a size over the
constant capacity is taken with slots written behind the storage. -/
theorem resize_two :
    let s := SmallVector.ofItems 4 [1, 2]
    let resize := resize SmallVector.number SmallVector.grow s
    (resize 3).contents = [some 0, some 0, some 0] ∧
      (resize 1).contents = [some 1, some 2] ∧
      (resize 5).vector.size = 5 ∧ ⟨0, 4⟩ ∈ s.writtenSince (resize 5) ∧
      ¬Resizes SmallVector.number SmallVector.grow s [1, 2] 3 := by
  refine ⟨by decide, by decide, by decide, by decide, ?_⟩
  intro h
  rw [Resizes, if_pos (by decide)] at h
  exact absurd h (by decide)

end CosmicArchitect.Util.GrowingSmallVector
