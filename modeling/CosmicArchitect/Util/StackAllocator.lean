import CosmicArchitect.Util.GrowingSmallVector

/-!
# The stack allocator with its tracking (Util/StackAllocator.h)

A debug build keeps the address of each block, and with its type and count that of each array.
Freeing a block asserts that exactly one entry is taken out.
-/

namespace CosmicArchitect.Util

open Library SmallVectorBase

structure TypeAlloc where
  ptr : Nat
  type : Nat
  count : Nat
deriving DecidableEq, Repr

/-- A power of two that `size_t` holds. -/
structure Alignment where
  exponent : Fin 64
deriving DecidableEq, Repr

def Alignment.bytes (a : Alignment) : Nat := 2 ^ (a.exponent : Nat)

/-- `sizeof`, `alignof` and the hash code of a type. -/
structure TypeInfo where
  size : Nat
  align : Alignment
  hashCode : Nat
deriving DecidableEq, Repr

/-- An assertion fails, or the behaviour is undefined. -/
inductive Fault
  | assertion
  | undefined
deriving DecidableEq, Repr

/-- The buffer is `bufferSize` addresses from `buffer` on, the offset an address in it. -/
structure StackAllocator where
  buffer : Nat
  bufferSize : Nat
  offset : Nat
  allocations : State Nat
  typedAllocations : State TypeAlloc

namespace StackAllocator

def pointer : ItemType Nat :=
  { default := 0, moved := id, size := 8, sized := by decide, assignsRaw := true }

def typeAlloc : ItemType TypeAlloc :=
  { default := ⟨0, 0, 0⟩, moved := id, size := 24, sized := by decide, assignsRaw := true }

def construct (buffer bufferSize : Nat) : StackAllocator where
  buffer := buffer
  bufferSize := bufferSize
  offset := buffer
  allocations := SmallVector.ofItems 32 []
  typedAllocations := SmallVector.ofItems 16 []

/-- `push_back` on a growing small vector -/
def push {α : Type} (T : ItemType α) (s : State α) (item : α) : Except Fault (State α) :=
  match emplaceBack T (GrowingSmallVector.grow T) s item with
  | none => .error .undefined
  | some (_, s) => .ok s

/-- `Alloc(size, align)`; `0` is the null pointer. -/
def alloc (a : StackAllocator) (size : Nat) (align : Alignment) :
    Except Fault (Nat × StackAllocator) :=
  let alignedPtr := (a.offset + align.bytes - 1) &&& (2 ^ 64 - align.bytes)
  let size := alignedPtr - a.offset + size
  if a.offset + size > a.buffer + a.bufferSize then .ok (0, a)
  else
    match push pointer a.allocations alignedPtr with
    | .error fault => .error fault
    | .ok allocations =>
      .ok (alignedPtr, { a with allocations := allocations, offset := a.offset + size })

/-- `Alloc(size)` -/
def allocBytes (a : StackAllocator) (size : Nat) : Except Fault (Nat × StackAllocator) :=
  if a.offset + size > a.buffer + a.bufferSize then .ok (0, a)
  else
    match push pointer a.allocations a.offset with
    | .error fault => .error fault
    | .ok allocations =>
      .ok (a.offset, { a with allocations := allocations, offset := a.offset + size })

def free (a : StackAllocator) (ptr : Nat) : Except Fault StackAllocator :=
  if ptr = 0 then .error .assertion
  else
    let removed := eraseIf (T := pointer) (· = ptr) a.allocations
    if removed.1 = 1 then .ok { a with allocations := removed.2 } else .error .assertion

/-- The items are constructed at the pointer even when it is null. -/
def newArray (a : StackAllocator) (type : TypeInfo) (count : Nat) :
    Except Fault (Nat × StackAllocator) :=
  match a.alloc (type.size * count) type.align with
  | .error fault => .error fault
  | .ok (ptr, a) =>
    match push typeAlloc a.typedAllocations ⟨ptr, type.hashCode, count⟩ with
    | .error fault => .error fault
    | .ok typedAllocations =>
      if ptr = 0 ∧ count ≠ 0 then .error .undefined
      else .ok (ptr, { a with typedAllocations := typedAllocations })

def deleteArray (a : StackAllocator) (type : TypeInfo) (ptr count : Nat) :
    Except Fault StackAllocator :=
  if ptr = 0 then .error .assertion
  else
    let removed := eraseIf (T := typeAlloc) (· = ⟨ptr, type.hashCode, count⟩) a.typedAllocations
    if removed.1 = 1 then free { a with typedAllocations := removed.2 } ptr
    else .error .assertion

/-! ### Blocks and their release -/

inductive Request
  | alloc (size : Nat) (align : Alignment)
  | allocBytes (size : Nat)
  | newArray (type : TypeInfo) (count : Nat)
deriving DecidableEq, Repr

structure Block where
  ptr : Nat
  request : Request
deriving DecidableEq, Repr

def acquire (a : StackAllocator) (r : Request) : Except Fault (Nat × StackAllocator) :=
  match r with
  | .alloc size align => a.alloc size align
  | .allocBytes size => a.allocBytes size
  | .newArray type count => a.newArray type count

def release (a : StackAllocator) (b : Block) : Except Fault StackAllocator :=
  match b.request with
  | .alloc _ _ | .allocBytes _ => a.free b.ptr
  | .newArray type count => a.deleteArray type b.ptr count

def acquireAll (a : StackAllocator) : List Request → Except Fault (List Block × StackAllocator)
  | [] => .ok ([], a)
  | r :: rs =>
    match a.acquire r with
    | .error fault => .error fault
    | .ok (ptr, a) =>
      match a.acquireAll rs with
      | .error fault => .error fault
      | .ok (blocks, a) => .ok (⟨ptr, r⟩ :: blocks, a)

def releaseAll (a : StackAllocator) : List Block → Except Fault StackAllocator
  | [] => .ok a
  | b :: bs =>
    match a.release b with
    | .error fault => .error fault
    | .ok a => a.releaseAll bs

/-- The blocks are handed out, and released by their places in `order`, with no assertion failing
and both lists empty at the end. -/
def Clean (a : StackAllocator) (rs : List Request) (order : List Nat) : Prop :=
  ∃ blocks a', a.acquireAll rs = .ok (blocks, a') ∧
    ∃ a'', a'.releaseAll (order.filterMap (blocks[·]?)) = .ok a'' ∧
      a''.allocations.vector.size = 0 ∧ a''.typedAllocations.vector.size = 0

/-! ### Where blocks come to stand -/

namespace Request

def bytes : Request → Nat
  | alloc size _ | allocBytes size => size
  | newArray type count => type.size * count

def align : Request → Nat
  | alloc _ align => align.bytes
  | allocBytes _ => 1
  | newArray type _ => type.align.bytes

def isTyped : Request → Bool
  | newArray _ _ => true
  | alloc _ _ | allocBytes _ => false

/-- The next multiple of the alignment. -/
def start (r : Request) (offset : Nat) : Nat := (offset + r.align - 1) / r.align * r.align

def stop (r : Request) (offset : Nat) : Nat := r.start offset + r.bytes

end Request

def layout : Nat → List Request → List Block
  | _, [] => []
  | offset, r :: rs => ⟨r.start offset, r⟩ :: layout (r.stop offset) rs

/-- The offset behind all blocks. -/
def layoutEnd : Nat → List Request → Nat
  | offset, [] => offset
  | offset, r :: rs => layoutEnd (r.stop offset) rs

/-- No block of size zero is followed by one that needs no padding. -/
def Apart : Nat → List Request → Prop
  | offset, r :: r' :: rs =>
    ¬(r.bytes = 0 ∧ r'.align ∣ r.stop offset) ∧ Apart (r.stop offset) (r' :: rs)
  | _, _ => True

variable {offset : Nat} {r r' : Request} {rs : List Request}

theorem align_pos (r : Request) : 0 < r.align := by
  cases r with
  | allocBytes size => exact Nat.one_pos
  | alloc size align => exact Nat.two_pow_pos _
  | newArray type count => exact Nat.two_pow_pos _

theorem le_start (r : Request) (offset : Nat) : offset ≤ r.start offset := by
  have hpos := align_pos r
  have hdiv := Nat.div_add_mod' (offset + r.align - 1) r.align
  have hmod := Nat.mod_lt (offset + r.align - 1) hpos
  rw [Request.start]
  omega

theorem start_eq_iff (r : Request) (offset : Nat) : r.start offset = offset ↔ r.align ∣ offset := by
  have hpos := align_pos r
  constructor
  · intro h
    rw [← h]
    exact Nat.dvd_mul_left _ _
  · rintro ⟨n, rfl⟩
    rw [Request.start, Nat.add_sub_assoc hpos, Nat.mul_add_div hpos,
      Nat.div_eq_of_lt (Nat.sub_lt hpos Nat.one_pos), Nat.add_zero, Nat.mul_comm]

theorem le_stop (r : Request) (offset : Nat) : offset ≤ r.stop offset :=
  Nat.le_trans (le_start r offset) (Nat.le_add_right _ _)

theorem le_layoutEnd (rs : List Request) : ∀ offset, offset ≤ layoutEnd offset rs := by
  induction rs with
  | nil => exact fun offset => Nat.le_refl offset
  | cons r rs ih => exact fun offset => Nat.le_trans (le_stop r offset) (ih _)

theorem le_ptr (rs : List Request) : ∀ offset, ∀ b ∈ layout offset rs, offset ≤ b.ptr := by
  induction rs with
  | nil => exact fun _ _ h => absurd h List.not_mem_nil
  | cons r rs ih =>
    intro offset b hb
    rcases List.mem_cons.mp hb with rfl | hb
    · exact le_start r offset
    · exact Nat.le_trans (le_stop r offset) (ih _ b hb)

theorem start_mem_iff (r r' : Request) (rs : List Request) (offset : Nat) :
    r.start offset ∈ (layout (r.stop offset) (r' :: rs)).map Block.ptr ↔
      r.bytes = 0 ∧ r'.align ∣ r.stop offset := by
  have hstop : r.stop offset = r.start offset + r.bytes := rfl
  have hnext := le_start r' (r.stop offset)
  rw [← start_eq_iff]
  constructor
  · intro h
    obtain ⟨b, hb, hptr⟩ := List.mem_map.mp h
    have hge : r'.start (r.stop offset) ≤ b.ptr := by
      rcases List.mem_cons.mp hb with rfl | hb
      · exact Nat.le_refl _
      · exact Nat.le_trans (Nat.le_add_right _ _) (le_ptr rs _ b hb)
    omega
  · rintro ⟨hbytes, hstart⟩
    refine List.mem_cons.mpr (Or.inl ?_)
    show r.start offset = r'.start (r.stop offset)
    omega

theorem nodup_layout_iff (rs : List Request) : ∀ offset,
    ((layout offset rs).map Block.ptr).Nodup ↔ Apart offset rs := by
  induction rs with
  | nil => exact fun offset => iff_of_true List.nodup_nil trivial
  | cons r rs ih =>
    intro offset
    rw [layout, List.map_cons, List.nodup_cons, ih]
    cases rs with
    | nil => simp [layout, Apart]
    | cons r' rs => exact and_congr_left fun _ => not_congr (start_mem_iff r r' rs offset)

/-- The mask of the source clears the bits below the alignment. -/
theorem and_mask (align : Alignment) {x : Nat} (hx : x < 2 ^ 64) :
    x &&& (2 ^ 64 - align.bytes) = x / align.bytes * align.bytes := by
  have hj : (align.exponent : Nat) < 64 := align.exponent.isLt
  have hmask : 2 ^ 64 - align.bytes =
      (2 ^ (64 - (align.exponent : Nat)) - 1) * 2 ^ (align.exponent : Nat) := by
    rw [Nat.sub_mul, ← Nat.pow_add, Nat.sub_add_cancel (Nat.le_of_lt hj), Nat.one_mul]
    rfl
  rw [hmask, Alignment.bytes]
  apply Nat.eq_of_testBit_eq
  intro i
  rw [Nat.testBit_and, Nat.testBit_mul_two_pow, Nat.testBit_mul_two_pow,
    Nat.testBit_two_pow_sub_one, Nat.testBit_div_two_pow]
  by_cases hle : (align.exponent : Nat) ≤ i
  · have hplace : i - (align.exponent : Nat) + (align.exponent : Nat) = i := Nat.sub_add_cancel hle
    rw [hplace]
    rcases Nat.lt_or_ge i 64 with hi | hi
    · have hlow : i - (align.exponent : Nat) < 64 - (align.exponent : Nat) := by omega
      simp [hle, hlow]
    · have hhigh := Nat.testBit_lt_two_pow
        (Nat.lt_of_lt_of_le hx (Nat.pow_le_pow_right (by decide) hi))
      simp [hhigh]
  · simp [hle]

/-! ### The tracking lists -/

/-- The list stands in the storage for `k` entries and holds the items. -/
structure Tracks {α : Type} (T : ItemType α) (k : Nat) (s : State α) (items : List α) : Prop where
  placed : GrowingSmallVector.Placed T k s.memory s.vector
  storage : s.vector.buffer = s.vector.storage
  contents : s.contents = items.map some

section
variable {α : Type} {T : ItemType α} {k : Nat} {s : State α} {items : List α}

theorem Tracks.size (h : Tracks T k s items) : s.vector.size = items.length :=
  (SlotMemory.contents_eq_iff.mp h.contents).1

theorem tracks_ofItems (hk : 1 ≤ k) (hbytes : T.size * k < GrowingSmallVector.sizeMax) :
    Tracks T k (SmallVector.ofItems k []) [] where
  placed := GrowingSmallVector.ofItems_placed hk hbytes (Nat.zero_le k)
  storage := rfl
  contents := rfl

theorem Tracks.pushed (h : Tracks T k s items) (hroom : items.length < k) (item : α) :
    ∃ s', push T s item = .ok s' ∧ Tracks T k s' (items ++ [item]) := by
  have hcapacity := h.placed.capacity h.storage
  have hgrow : GrowingSmallVector.grow T (s.vector.size + 1) s = some s := by
    rw [GrowingSmallVector.grow, if_neg]
    rw [h.size, hcapacity]
    omega
  obtain ⟨hcall, hcontents⟩ := emplaceBack_room (T := T) hgrow
    (by rw [h.placed.room, hcapacity, h.size]; exact hroom) h.contents item
  rw [push, hcall]
  refine ⟨_, rfl, ⟨h.placed.pos, h.placed.bytes, h.placed.storage, h.placed.room, ?_,
    h.placed.heap, h.placed.allocated⟩, h.storage, hcontents⟩
  show s.vector.size + 1 ≤ s.vector.capacity
  rw [h.size, hcapacity]
  exact hroom

/-- The list grows out of its storage before the position behind its last entry is used. -/
theorem Tracks.spilled (h : Tracks T k s items) (hfull : items.length = k)
    (hbytes : k * 2 < GrowingSmallVector.sizeMax) (item : α) :
    push T s item = .error .undefined := by
  have hcapacity := h.placed.capacity h.storage
  have hpos := h.placed.pos
  have hgrow : GrowingSmallVector.grow T (s.vector.size + 1) s =
      some (GrowingSmallVector.reserve T s (k * 2)) := by
    rw [GrowingSmallVector.grow, if_pos (by rw [h.size, hcapacity]; omega), hcapacity,
      Nat.mod_eq_of_lt hbytes]
  have hreserve := GrowingSmallVector.reserve_storage (T := T) (n := k * 2) h.storage
    (by rw [hcapacity]; omega)
  have hbuffer : s.vector.endIt.buffer ≠
      (GrowingSmallVector.reserve T s (k * 2)).vector.buffer := by
    rw [hreserve]
    exact Nat.ne_of_lt h.placed.allocated.1
  rw [push, emplaceBack, emplace_replaced hgrow hbuffer]

theorem Tracks.erased (h : Tracks T k s items) (p : α → Bool) :
    (eraseIf (T := T) p s).1 = items.countP p ∧
      Tracks T k (eraseIf (T := T) p s).2 (items.filter fun x => !p x) := by
  obtain ⟨hcount, hcontents, hvector, hroom, hnext⟩ := eraseIf_spec (T := T) p h.contents
  have hle : (items.filter fun x => !p x).length ≤ s.vector.size := by
    rw [h.size]
    exact List.length_filter_le _ _
  refine ⟨hcount, ⟨h.placed.pos, ?_, ?_, ?_, ?_, ?_, ?_⟩, ?_, hcontents⟩
  · rw [hvector]
    exact h.placed.bytes
  · rw [hvector, hroom]
    exact h.placed.storage
  · rw [hvector, hroom]
    exact h.placed.room
  · rw [hvector]
    exact Nat.le_trans hle h.placed.fits
  · rw [hvector]
    exact h.placed.heap
  · rw [hvector, hnext]
    exact h.placed.allocated
  · rw [hvector]
    exact h.storage

theorem Tracks.length_le (h : Tracks T k s items) : items.length ≤ k := by
  rw [← h.size, ← h.placed.capacity h.storage]
  exact h.placed.fits

end

structure Lists (a : StackAllocator) (ptrs : List Nat) (entries : List TypeAlloc) : Prop where
  allocations : Tracks pointer 32 a.allocations ptrs
  typed : Tracks typeAlloc 16 a.typedAllocations entries

def Block.entry (b : Block) : Option TypeAlloc :=
  match b.request with
  | .alloc _ _ | .allocBytes _ => none
  | .newArray type count => some ⟨b.ptr, type.hashCode, count⟩

theorem entry_ptr {b : Block} {e : TypeAlloc} (h : b.entry = some e) : e.ptr = b.ptr := by
  obtain ⟨ptr, request⟩ := b
  cases request with
  | alloc | allocBytes => cases h
  | newArray type count =>
    cases h
    rfl

theorem construct_lists (buffer bufferSize : Nat) : Lists (construct buffer bufferSize) [] [] :=
  ⟨tracks_ofItems (by decide) (by decide), tracks_ofItems (by decide) (by decide)⟩

/-! ### Handing out blocks -/

variable {a a' : StackAllocator} {ptrs : List Nat} {entries : List TypeAlloc}

/-- The block fits and its addresses are positive as `intptr_t`. -/
structure Fits (a : StackAllocator) (last : Nat) : Prop where
  pos : 0 < a.offset
  last : last ≤ a.buffer + a.bufferSize
  address : a.buffer + a.bufferSize ≤ 2 ^ 63

theorem alloc_eq {size : Nat} {align : Alignment}
    (h : a.Fits ((Request.alloc size align).stop a.offset)) :
    a.alloc size align =
      match push pointer a.allocations ((Request.alloc size align).start a.offset) with
      | .error fault => .error fault
      | .ok allocations =>
        .ok ((Request.alloc size align).start a.offset,
          { a with allocations := allocations
                   offset := (Request.alloc size align).stop a.offset }) := by
  have hle := le_start (Request.alloc size align) a.offset
  have hstop : (Request.alloc size align).stop a.offset =
      (Request.alloc size align).start a.offset + size := rfl
  have halign : align.bytes ≤ 2 ^ 63 :=
    Nat.pow_le_pow_right (by decide) (Nat.le_of_lt_succ align.exponent.isLt)
  have hlast := h.last
  have haddress := h.address
  have hmask : (a.offset + align.bytes - 1) &&& (2 ^ 64 - align.bytes) =
      (Request.alloc size align).start a.offset := and_mask align (by omega)
  have hsum : a.offset + ((Request.alloc size align).start a.offset - a.offset + size) =
      (Request.alloc size align).stop a.offset := by omega
  simp only [alloc, hmask, hsum]
  rw [if_neg (by omega)]

theorem allocBytes_eq {size : Nat} (h : a.Fits ((Request.allocBytes size).stop a.offset)) :
    a.allocBytes size =
      match push pointer a.allocations ((Request.allocBytes size).start a.offset) with
      | .error fault => .error fault
      | .ok allocations =>
        .ok ((Request.allocBytes size).start a.offset,
          { a with allocations := allocations
                   offset := (Request.allocBytes size).stop a.offset }) := by
  have hstart : (Request.allocBytes size).start a.offset = a.offset :=
    (start_eq_iff _ _).mpr (Nat.one_dvd _)
  have hstop : (Request.allocBytes size).stop a.offset = a.offset + size := by
    rw [Request.stop, hstart]
    rfl
  have hlast := h.last
  rw [allocBytes, if_neg (by omega), hstart, hstop]

theorem newArray_eq {type : TypeInfo} {count : Nat}
    (h : a.Fits ((Request.newArray type count).stop a.offset)) :
    a.newArray type count =
      match push pointer a.allocations ((Request.newArray type count).start a.offset) with
      | .error fault => .error fault
      | .ok allocations =>
        match push typeAlloc a.typedAllocations
            ⟨(Request.newArray type count).start a.offset, type.hashCode, count⟩ with
        | .error fault => .error fault
        | .ok typedAllocations =>
          .ok ((Request.newArray type count).start a.offset,
            { a with allocations := allocations
                     typedAllocations := typedAllocations
                     offset := (Request.newArray type count).stop a.offset }) := by
  have halloc : a.alloc (type.size * count) type.align = _ := alloc_eq h
  have hpos := Nat.lt_of_lt_of_le h.pos (le_start (Request.newArray type count) a.offset)
  have hsame : (Request.alloc (type.size * count) type.align).start a.offset =
      (Request.newArray type count).start a.offset := rfl
  rw [hsame] at halloc
  cases hfirst : push pointer a.allocations ((Request.newArray type count).start a.offset) with
  | error fault => simp only [newArray, halloc, hfirst]
  | ok allocations =>
    cases hsecond : push typeAlloc a.typedAllocations
        ⟨(Request.newArray type count).start a.offset, type.hashCode, count⟩ with
    | error fault => simp only [newArray, halloc, hfirst, hsecond]
    | ok typedAllocations =>
      simp only [newArray, halloc, hfirst, hsecond]
      exact if_neg fun hnull => absurd hnull.1 (Nat.ne_of_gt hpos)

theorem Lists.acquired (h : Lists a ptrs entries) {r : Request} (hfits : a.Fits (r.stop a.offset))
    (hptrs : ptrs.length < 32) (hentries : r.isTyped = true → entries.length < 16) :
    ∃ a', a.acquire r = .ok (r.start a.offset, a') ∧
      Lists a' (ptrs ++ [r.start a.offset])
        (entries ++ (Block.entry ⟨r.start a.offset, r⟩).toList) ∧
      a'.offset = r.stop a.offset ∧ a'.buffer = a.buffer ∧ a'.bufferSize = a.bufferSize := by
  obtain ⟨allocations, hpush, hallocations⟩ := h.allocations.pushed hptrs (r.start a.offset)
  cases r with
  | alloc size align =>
    refine ⟨{ a with allocations := allocations
                     offset := (Request.alloc size align).stop a.offset }, ?_,
      ⟨hallocations, ?_⟩, rfl, rfl, rfl⟩
    · rw [acquire, alloc_eq hfits, hpush]
    · simpa [Block.entry] using h.typed
  | allocBytes size =>
    refine ⟨{ a with allocations := allocations
                     offset := (Request.allocBytes size).stop a.offset }, ?_,
      ⟨hallocations, ?_⟩, rfl, rfl, rfl⟩
    · rw [acquire, allocBytes_eq hfits, hpush]
    · simpa [Block.entry] using h.typed
  | newArray type count =>
    obtain ⟨typedAllocations, hentry, htyped⟩ := h.typed.pushed (hentries rfl)
      ⟨(Request.newArray type count).start a.offset, type.hashCode, count⟩
    refine ⟨{ a with allocations := allocations
                     typedAllocations := typedAllocations
                     offset := (Request.newArray type count).stop a.offset }, ?_,
      ⟨hallocations, htyped⟩, rfl, rfl, rfl⟩
    rw [acquire, newArray_eq hfits, hpush]
    simp only [hentry]

/-- The 33rd block and the 17th array find their list full. -/
theorem Lists.refused (h : Lists a ptrs entries) {r : Request} (hfits : a.Fits (r.stop a.offset))
    (hfull : ¬(ptrs.length < 32 ∧ (r.isTyped = true → entries.length < 16))) :
    ∃ fault, a.acquire r = .error fault := by
  have hptrs := h.allocations.length_le
  have hentries := h.typed.length_le
  by_cases hroom : ptrs.length < 32
  · obtain ⟨allocations, hpush, -⟩ := h.allocations.pushed hroom (r.start a.offset)
    cases r with
    | alloc | allocBytes => exact absurd ⟨hroom, fun htyped => Bool.noConfusion htyped⟩ hfull
    | newArray type count =>
      have hlength : entries.length = 16 := by
        simp only [hroom, Request.isTyped, true_and, true_implies] at hfull
        omega
      have hspill := h.typed.spilled hlength (by decide)
        ⟨(Request.newArray type count).start a.offset, type.hashCode, count⟩
      refine ⟨.undefined, ?_⟩
      rw [acquire, newArray_eq hfits, hpush]
      simp only [hspill]
  · have hspill := h.allocations.spilled (by omega) (by decide) (r.start a.offset)
    refine ⟨.undefined, ?_⟩
    cases r with
    | alloc size align => rw [acquire, alloc_eq hfits, hspill]
    | allocBytes size => rw [acquire, allocBytes_eq hfits, hspill]
    | newArray type count => rw [acquire, newArray_eq hfits, hspill]

def typedCount (rs : List Request) : Nat := rs.countP Request.isTyped

theorem Lists.acquiredAll (rs : List Request) : ∀ {a : StackAllocator} {ptrs entries},
    Lists a ptrs entries → a.Fits (layoutEnd a.offset rs) →
    (ptrs.length + rs.length ≤ 32 ∧ entries.length + typedCount rs ≤ 16 →
      ∃ a', a.acquireAll rs = .ok (layout a.offset rs, a') ∧
        Lists a' (ptrs ++ (layout a.offset rs).map Block.ptr)
          (entries ++ (layout a.offset rs).filterMap Block.entry)) ∧
    (¬(ptrs.length + rs.length ≤ 32 ∧ entries.length + typedCount rs ≤ 16) →
      ∃ fault, a.acquireAll rs = .error fault) := by
  induction rs with
  | nil =>
    intro a ptrs entries h _
    have hptrs := h.allocations.length_le
    have hentries := h.typed.length_le
    refine ⟨fun _ => ⟨a, rfl, by simpa [layout] using h⟩, fun hfull => absurd ?_ hfull⟩
    exact ⟨hptrs, hentries⟩
  | cons r rs ih =>
    intro a ptrs entries h hfits
    have hend := le_layoutEnd rs (r.stop a.offset)
    have hfirst : a.Fits (r.stop a.offset) := ⟨hfits.pos, Nat.le_trans hend hfits.last, hfits.address⟩
    have hcount : typedCount (r :: rs) = typedCount rs + (if r.isTyped then 1 else 0) :=
      List.countP_cons
    have hentry : (Block.entry ⟨r.start a.offset, r⟩).toList.length =
        if r.isTyped then 1 else 0 := by
      cases r <;> rfl
    have hlist : (layout a.offset (r :: rs)).filterMap Block.entry =
        (Block.entry ⟨r.start a.offset, r⟩).toList ++
          (layout (r.stop a.offset) rs).filterMap Block.entry := by
      rw [layout, List.filterMap_cons]
      cases Block.entry ⟨r.start a.offset, r⟩ <;> rfl
    rw [List.length_cons, hcount]
    by_cases hroom : ptrs.length < 32 ∧ (r.isTyped = true → entries.length < 16)
    · obtain ⟨a', hr, hlists, hoffset, hbuffer, hsize⟩ := h.acquired hfirst hroom.1 hroom.2
      have hrest : a'.Fits (layoutEnd a'.offset rs) := by
        refine ⟨?_, ?_, by rw [hbuffer, hsize]; exact hfits.address⟩
        · rw [hoffset]
          exact Nat.lt_of_lt_of_le hfits.pos (le_stop r a.offset)
        · rw [hoffset, hbuffer, hsize]
          exact hfits.last
      obtain ⟨hok, hfault⟩ := ih hlists hrest
      rw [List.length_append, List.length_append, hentry, List.length_singleton] at hok hfault
      constructor
      · intro hle
        obtain ⟨a'', hrs, hdone⟩ := hok (by omega)
        refine ⟨a'', ?_, ?_⟩
        · rw [acquireAll, hr]
          simp only [hrs, hoffset]
          rfl
        · rw [hlist, layout, List.map_cons, List.append_cons, ← List.append_assoc, ← hoffset]
          exact hdone
      · intro hle
        obtain ⟨fault, hrs⟩ := hfault (by omega)
        refine ⟨fault, ?_⟩
        rw [acquireAll, hr]
        simp only [hrs]
    · obtain ⟨fault, hr⟩ := h.refused hfirst hroom
      refine ⟨fun hle => absurd ?_ hroom, fun _ => ⟨fault, ?_⟩⟩
      · refine ⟨by omega, fun htyped => ?_⟩
        rw [if_pos htyped] at hle
        omega
      · rw [acquireAll, hr]

/-! ### Releasing them -/

theorem Lists.freed (h : Lists a ptrs entries) {ptr : Nat} (hnull : ptr ≠ 0) :
    (ptrs.count ptr = 1 → ∃ a', a.free ptr = .ok a' ∧ Lists a' (ptrs.filter (· ≠ ptr)) entries) ∧
    (ptrs.count ptr ≠ 1 → a.free ptr = .error .assertion) := by
  obtain ⟨hcount, htracks⟩ := h.allocations.erased (· = ptr)
  have hcountP : (eraseIf (T := pointer) (· = ptr) a.allocations).1 = ptrs.count ptr := by
    rw [hcount, List.count]
    congr 1
  rw [free, if_neg hnull]
  simp only [hcountP]
  constructor
  · intro hone
    rw [if_pos hone]
    refine ⟨_, rfl, ?_, h.typed⟩
    have hfilter : ptrs.filter (fun x => decide (x ≠ ptr)) =
        ptrs.filter fun x => !decide (x = ptr) := by
      congr 1
      funext x
      exact decide_not
    rw [hfilter]
    exact htracks
  · intro hmany
    rw [if_neg hmany]

/-- An array is looked for in the list of the typed blocks before it is freed. -/
theorem Lists.deleted (h : Lists a ptrs entries) {ptr : Nat} (hnull : ptr ≠ 0) (type : TypeInfo)
    (count : Nat) :
    (entries.count ⟨ptr, type.hashCode, count⟩ = 1 → ∃ a', Lists a' ptrs
        (entries.filter (· ≠ ⟨ptr, type.hashCode, count⟩)) ∧
      a.deleteArray type ptr count = a'.free ptr) ∧
    (entries.count ⟨ptr, type.hashCode, count⟩ ≠ 1 →
      a.deleteArray type ptr count = .error .assertion) := by
  obtain ⟨hcount, htracks⟩ := h.typed.erased (· = ⟨ptr, type.hashCode, count⟩)
  have hcountP : (eraseIf (T := typeAlloc) (· = ⟨ptr, type.hashCode, count⟩)
      a.typedAllocations).1 = entries.count ⟨ptr, type.hashCode, count⟩ := by
    rw [hcount, List.count]
    congr 1
  rw [deleteArray, if_neg hnull]
  simp only [hcountP]
  constructor
  · intro hone
    rw [if_pos hone]
    refine ⟨{ a with typedAllocations := (eraseIf (T := typeAlloc)
      (· = ⟨ptr, type.hashCode, count⟩) a.typedAllocations).2 }, ⟨h.allocations, ?_⟩, rfl⟩
    simpa only [ne_eq, decide_not] using htracks
  · intro hmany
    rw [if_neg hmany]

theorem Lists.released (h : Lists a ptrs entries) {b : Block} (hnull : b.ptr ≠ 0)
    (hone : ptrs.count b.ptr = 1) (hentry : ∀ e ∈ b.entry, entries.count e = 1) :
    ∃ a', a.release b = .ok a' ∧
      Lists a' (ptrs.filter (· ≠ b.ptr)) (entries.filter fun e => b.entry ≠ some e) := by
  obtain ⟨ptr, request⟩ := b
  cases request with
  | alloc | allocBytes => simpa [Block.entry, release] using (h.freed hnull).1 hone
  | newArray type count =>
    obtain ⟨a', hlists, hdelete⟩ := (h.deleted hnull type count).1 (hentry _ rfl)
    obtain ⟨a'', hfree, hdone⟩ := (hlists.freed hnull).1 hone
    refine ⟨a'', hdelete.trans hfree, ?_⟩
    have hfilter : (entries.filter fun e => Block.entry ⟨ptr, .newArray type count⟩ ≠ some e) =
        entries.filter (· ≠ ⟨ptr, type.hashCode, count⟩) := by
      congr 1
      funext e
      simp [Block.entry, eq_comm]
    rw [hfilter]
    exact hdone

/-- Whatever the typed list holds, the address of a block has to stand in the other one once. -/
theorem Lists.of_released (h : Lists a ptrs entries) {b : Block} (hnull : b.ptr ≠ 0)
    (hok : a.release b = .ok a') :
    ptrs.count b.ptr = 1 ∧ ∃ entries', Lists a' (ptrs.filter (· ≠ b.ptr)) entries' := by
  have hfree : ∀ {a : StackAllocator} {entries}, Lists a ptrs entries → a.free b.ptr = .ok a' →
      ptrs.count b.ptr = 1 ∧ ∃ entries', Lists a' (ptrs.filter (· ≠ b.ptr)) entries' := by
    intro a entries h hok
    by_cases hone : ptrs.count b.ptr = 1
    · obtain ⟨a'', hfreed, hlists⟩ := (h.freed hnull).1 hone
      rw [hfreed] at hok
      cases hok
      exact ⟨hone, entries, hlists⟩
    · rw [(h.freed hnull).2 hone] at hok
      cases hok
  obtain ⟨ptr, request⟩ := b
  cases request with
  | alloc | allocBytes => exact hfree h hok
  | newArray type count =>
    by_cases hone : entries.count ⟨ptr, type.hashCode, count⟩ = 1
    · obtain ⟨a'', hlists, hdelete⟩ := (h.deleted hnull type count).1 hone
      exact hfree hlists (hdelete.symm.trans hok)
    · have hfault : a.release ⟨ptr, .newArray type count⟩ = .error .assertion :=
        (h.deleted hnull type count).2 hone
      rw [hfault] at hok
      cases hok

theorem count_eq_one_of_perm {α : Type} [DecidableEq α] {xs ys : List α} {x : α}
    (h : xs.Perm (x :: ys)) : xs.count x = 1 ↔ x ∉ ys := by
  rw [h.count_eq, List.count_cons_self, ← List.count_eq_zero]
  omega

theorem filter_ne_perm {α : Type} [DecidableEq α] {xs ys : List α} {x : α}
    (h : xs.Perm (x :: ys)) (hx : x ∉ ys) : (xs.filter (· ≠ x)).Perm ys := by
  refine (h.filter _).trans ?_
  have hys : ys.filter (· ≠ x) = ys := by
    rw [List.filter_eq_self]
    intro y hy
    exact decide_eq_true (ne_of_mem_of_not_mem hy hx)
  simp only [List.filter_cons, ne_eq, not_true_eq_false, decide_false, Bool.false_eq_true, if_false]
  rw [hys]

/-- Of blocks at different addresses, each is found once. -/
theorem releaseAll_ok (bs : List Block) : ∀ {a : StackAllocator} {ptrs entries},
    Lists a ptrs entries → ptrs.Perm (bs.map Block.ptr) → entries.Perm (bs.filterMap Block.entry) →
    (bs.map Block.ptr).Nodup → (∀ b ∈ bs, b.ptr ≠ 0) →
    ∃ a', a.releaseAll bs = .ok a' ∧ Lists a' [] [] := by
  induction bs with
  | nil =>
    intro a ptrs entries h hptrs hentries _ _
    rw [hptrs.eq_nil, hentries.eq_nil] at h
    exact ⟨a, rfl, h⟩
  | cons b bs ih =>
    intro a ptrs entries h hptrs hentries hnodup hnull
    rw [List.map_cons] at hptrs hnodup
    obtain ⟨hb, hrest⟩ := List.nodup_cons.mp hnodup
    have hnext : ∀ b ∈ bs, b.ptr ≠ 0 := fun b hb => hnull b (List.mem_cons_of_mem _ hb)
    have hother : ∀ e, b.entry = some e → e ∉ bs.filterMap Block.entry := by
      intro e he hmem
      obtain ⟨b', hb', he'⟩ := List.mem_filterMap.mp hmem
      refine hb (List.mem_map.mpr ⟨b', hb', ?_⟩)
      rw [← entry_ptr he, ← entry_ptr he']
    have hone : ∀ e ∈ b.entry, entries.count e = 1 := by
      intro e he
      rw [List.filterMap_cons_some he] at hentries
      exact (count_eq_one_of_perm hentries).mpr (hother e he)
    have hleft : (entries.filter fun e => b.entry ≠ some e).Perm (bs.filterMap Block.entry) := by
      cases he : b.entry with
      | none =>
        rw [List.filterMap_cons_none he] at hentries
        simpa using hentries
      | some e =>
        rw [List.filterMap_cons_some he] at hentries
        have hfilter : (entries.filter fun e' => some e ≠ some e') = entries.filter (· ≠ e) := by
          congr 1
          funext e'
          simp [eq_comm]
        rw [hfilter]
        exact filter_ne_perm hentries (hother e he)
    obtain ⟨a', hr, hlists⟩ := h.released (hnull b List.mem_cons_self)
      ((count_eq_one_of_perm hptrs).mpr hb) hone
    obtain ⟨a'', hrs, hdone⟩ := ih hlists (filter_ne_perm hptrs hb) hleft hrest hnext
    refine ⟨a'', ?_, hdone⟩
    rw [releaseAll, hr]
    exact hrs

/-- Two blocks at one address: the first of them to be freed is found twice. -/
theorem releaseAll_shared (bs : List Block) : ∀ {a : StackAllocator} {ptrs entries},
    Lists a ptrs entries → ptrs.Perm (bs.map Block.ptr) → ¬(bs.map Block.ptr).Nodup →
    (∀ b ∈ bs, b.ptr ≠ 0) → ∀ a', a.releaseAll bs ≠ .ok a' := by
  induction bs with
  | nil =>
    intro a ptrs entries _ _ hshared
    exact absurd List.nodup_nil hshared
  | cons b bs ih =>
    intro a ptrs entries h hptrs hshared hnull a' hok
    have hnext : ∀ b ∈ bs, b.ptr ≠ 0 := fun b hb => hnull b (List.mem_cons_of_mem _ hb)
    rw [List.map_cons] at hptrs hshared
    cases hr : a.release b with
    | error fault =>
      rw [releaseAll, hr] at hok
      cases hok
    | ok a₁ =>
      obtain ⟨hone, entries', hlists⟩ := h.of_released (hnull b List.mem_cons_self) hr
      have hb := (count_eq_one_of_perm hptrs).mp hone
      rw [releaseAll, hr] at hok
      refine ih hlists (filter_ne_perm hptrs hb) ?_ hnext a' hok
      exact fun hrest => hshared (List.nodup_cons.mpr ⟨hb, hrest⟩)

/-! ### All blocks, in any order -/

theorem picked_perm {α : Type} (xs : List α) {order : List Nat}
    (h : order.Perm (List.range xs.length)) : (order.filterMap (xs[·]?)).Perm xs := by
  refine (h.filterMap _).trans (List.Perm.of_eq ?_)
  have hread : (List.range xs.length).map (xs[·]?) = xs.map some := by
    refine List.ext_getElem (by simp) fun i hi _ => ?_
    rw [List.length_map, List.length_range] at hi
    simp [hi]
  calc (List.range xs.length).filterMap (xs[·]?)
      = ((List.range xs.length).map (xs[·]?)).filterMap id := by rw [List.filterMap_map]; rfl
    _ = xs := by rw [hread, List.filterMap_map]; exact List.filterMap_some

theorem layout_length (rs : List Request) : ∀ offset, (layout offset rs).length = rs.length := by
  induction rs with
  | nil => exact fun _ => rfl
  | cons r rs ih => exact fun offset => congrArg Nat.succ (ih _)

theorem clean_iff {buffer bufferSize : Nat} {rs : List Request} {order : List Nat}
    (hbuffer : 0 < buffer) (haddress : buffer + bufferSize ≤ 2 ^ 63)
    (hfits : layoutEnd buffer rs ≤ buffer + bufferSize)
    (horder : order.Perm (List.range rs.length)) :
    Clean (construct buffer bufferSize) rs order ↔
      rs.length ≤ 32 ∧ typedCount rs ≤ 16 ∧ Apart buffer rs := by
  have hlists := construct_lists buffer bufferSize
  obtain ⟨hok, hfault⟩ := hlists.acquiredAll rs ⟨hbuffer, hfits, haddress⟩
  have hnull : ∀ b ∈ (order.filterMap ((layout buffer rs)[·]?)), b.ptr ≠ 0 := by
    intro b hb
    obtain ⟨i, _, hi⟩ := List.mem_filterMap.mp hb
    have hge := le_ptr rs buffer b (List.mem_of_getElem? hi)
    omega
  have hpicked : (order.filterMap ((layout buffer rs)[·]?)).Perm (layout buffer rs) :=
    picked_perm _ (by rw [layout_length]; exact horder)
  have hnodup : ((order.filterMap ((layout buffer rs)[·]?)).map Block.ptr).Nodup ↔
      Apart buffer rs := ((hpicked.map _).nodup_iff).trans (nodup_layout_iff rs buffer)
  simp only [List.length_nil, Nat.zero_add, List.nil_append] at hok hfault
  constructor
  · rintro ⟨blocks, a', hacquire, a'', hrelease, -⟩
    by_cases hroom : rs.length ≤ 32 ∧ typedCount rs ≤ 16
    · obtain ⟨a₁, hall, hheld⟩ := hok hroom
      rw [hacquire] at hall
      cases hall
      refine ⟨hroom.1, hroom.2, ?_⟩
      by_contra hshared
      exact releaseAll_shared _ hheld (hpicked.symm.map _) (mt hnodup.mp hshared) hnull a'' hrelease
    · obtain ⟨fault, hall⟩ := hfault hroom
      rw [hacquire] at hall
      cases hall
  · rintro ⟨hlength, htyped, hapart⟩
    obtain ⟨a', hall, hheld⟩ := hok ⟨hlength, htyped⟩
    obtain ⟨a'', hrelease, hdone⟩ := releaseAll_ok _ hheld (hpicked.symm.map _)
      (hpicked.symm.filterMap _) (hnodup.mpr hapart) hnull
    exact ⟨_, a', hall, a'', hrelease, hdone.allocations.size, hdone.typed.size⟩

/-! ### The arguments of a command (Commands/GodotCommandBuffer.cpp) -/

/-- `ProcessCommand` reads the arguments to variants and passes pointers to them. -/
def argumentArrays (variant variantPtr : TypeInfo) (argcount : Nat) : List Request :=
  [.newArray variant argcount, .newArray variantPtr argcount]

/-- `k_command_args_alloc_size` -/
def commandArgsAllocSize (variant variantPtr : TypeInfo) : Nat :=
  variantPtr.size * 16 + variant.size * 16

/-- Both sizes are multiples of the alignments, and the buffer of the allocator is aligned. -/
structure ArgumentTypes (buffer : Nat) (variant variantPtr : TypeInfo) : Prop where
  size : 0 < variant.size
  first : variant.align.bytes ∣ buffer
  second : variantPtr.align.bytes ∣ buffer
  multiple : variantPtr.align.bytes ∣ variant.size

theorem argumentArrays_apart {buffer : Nat} {variant variantPtr : TypeInfo}
    (h : ArgumentTypes buffer variant variantPtr) (argcount : Nat) :
    (Apart buffer (argumentArrays variant variantPtr argcount) ↔ argcount ≠ 0) ∧
      layoutEnd buffer (argumentArrays variant variantPtr argcount) =
        buffer + variant.size * argcount + variantPtr.size * argcount := by
  have hstop : (Request.newArray variant argcount).stop buffer =
      buffer + variant.size * argcount := by
    rw [Request.stop, (start_eq_iff (Request.newArray variant argcount) buffer).mpr h.first]
    rfl
  have hdvd : variantPtr.align.bytes ∣ buffer + variant.size * argcount :=
    Nat.dvd_add h.second (Nat.dvd_trans h.multiple (Nat.dvd_mul_right _ _))
  constructor
  · show (¬(variant.size * argcount = 0 ∧ variantPtr.align.bytes ∣ Request.stop _ _) ∧ True) ↔ _
    rw [hstop, and_true, and_iff_left hdvd, Nat.mul_eq_zero, not_or]
    exact and_iff_right (Nat.ne_of_gt h.size)
  · show Request.stop _ (Request.stop _ _) = _
    rw [hstop, Request.stop,
      (start_eq_iff (Request.newArray variantPtr argcount) _).mpr hdvd]
    rfl

/-- The arrays of a command come back cleanly unless it has no arguments. -/
theorem arguments_clean_iff {buffer argcount : Nat} {variant variantPtr : TypeInfo}
    (h : ArgumentTypes buffer variant variantPtr) (hbuffer : 0 < buffer)
    (haddress : buffer + commandArgsAllocSize variant variantPtr ≤ 2 ^ 63) (hcount : argcount ≤ 16) :
    Clean (construct buffer (commandArgsAllocSize variant variantPtr))
      (argumentArrays variant variantPtr argcount) [0, 1] ↔ argcount ≠ 0 := by
  obtain ⟨hapart, hend⟩ := argumentArrays_apart h argcount
  have hfirst : variant.size * argcount ≤ variant.size * 16 := Nat.mul_le_mul_left _ hcount
  have hsecond : variantPtr.size * argcount ≤ variantPtr.size * 16 := Nat.mul_le_mul_left _ hcount
  have hlength : (argumentArrays variant variantPtr argcount).length ≤ 32 := Nat.le_add_left 2 30
  have htyped : typedCount (argumentArrays variant variantPtr argcount) ≤ 16 := Nat.le_add_left 2 14
  refine (clean_iff hbuffer haddress ?_ (List.Perm.refl _)).trans ?_
  · rw [hend, commandArgsAllocSize]
    omega
  · rw [and_iff_right hlength, and_iff_right htyped, hapart]

/-- Where the allocator of `ProcessCommand` stands, and what it allocates. -/
structure ArgumentStack where
  buffer : Nat
  variant : TypeInfo
  variantPtr : TypeInfo
  types : ArgumentTypes buffer variant variantPtr
  pos : 0 < buffer
  address : buffer + commandArgsAllocSize variant variantPtr ≤ 2 ^ 63

/-- The arrays of a command are allocated, deleted in the order they were made, and the allocator
is destroyed. -/
def ArgumentStack.passArguments (S : ArgumentStack) (argcount : Nat) : Except Fault Unit :=
  match (construct S.buffer (commandArgsAllocSize S.variant S.variantPtr)).acquireAll
      (argumentArrays S.variant S.variantPtr argcount) with
  | .error fault => .error fault
  | .ok (blocks, a) =>
    match a.releaseAll blocks with
    | .error fault => .error fault
    | .ok a =>
      if a.allocations.vector.size = 0 ∧ a.typedAllocations.vector.size = 0 then .ok ()
      else .error .assertion

theorem acquireAll_length (rs : List Request) : ∀ {a a' : StackAllocator} {blocks : List Block},
    a.acquireAll rs = .ok (blocks, a') → blocks.length = rs.length := by
  induction rs with
  | nil =>
    intro a a' blocks h
    cases h
    rfl
  | cons r rs ih =>
    intro a a' blocks h
    rw [acquireAll] at h
    cases hr : a.acquire r with
    | error fault =>
      rw [hr] at h
      cases h
    | ok acquired =>
      cases hrs : acquired.2.acquireAll rs with
      | error fault =>
        simp only [hr, hrs] at h
        cases h
      | ok rest =>
        simp only [hr, hrs] at h
        cases h
        rw [List.length_cons, List.length_cons, ih hrs]

/-- The arrays of up to 16 arguments pass the tracking unless there are none. -/
theorem ArgumentStack.passArguments_ok_iff (S : ArgumentStack) {argcount : Nat}
    (hcount : argcount ≤ 16) : S.passArguments argcount = .ok () ↔ argcount ≠ 0 := by
  rw [← arguments_clean_iff S.types S.pos S.address hcount, passArguments, Clean]
  cases hacquire : (construct S.buffer (commandArgsAllocSize S.variant S.variantPtr)).acquireAll
      (argumentArrays S.variant S.variantPtr argcount) with
  | error fault => simp
  | ok acquired =>
    obtain ⟨blocks, a⟩ := acquired
    obtain ⟨first, second, rfl⟩ := List.length_eq_two.mp (acquireAll_length _ hacquire)
    have horder : [0, 1].filterMap ([first, second][·]?) = [first, second] := rfl
    cases hrelease : a.releaseAll [first, second] with
    | error fault => simp [horder, hrelease]
    | ok a' => simp [horder, hrelease]

/-- Released in any order, the blocks come back cleanly exactly when the lists do not grow and no
block of size zero shares its address with the next one. -/
theorem frees_match_iff {buffer bufferSize : Nat} {rs : List Request} {order : List Nat}
    (hbuffer : 0 < buffer) (haddress : buffer + bufferSize ≤ 2 ^ 63)
    (hfits : layoutEnd buffer rs ≤ buffer + bufferSize)
    (horder : order.Perm (List.range rs.length)) :
    Clean (construct buffer bufferSize) rs order ↔
      rs.length ≤ 32 ∧ typedCount rs ≤ 16 ∧ Apart buffer rs :=
  clean_iff hbuffer haddress hfits horder

/-- A variant of 24 bytes, a pointer to one, and a byte. -/
def variant : TypeInfo := { size := 24, align := ⟨3⟩, hashCode := 1 }

def variantPtr : TypeInfo := { size := 8, align := ⟨3⟩, hashCode := 2 }

theorem frees_match_iff_three :
    Clean (construct 4096 512) [.allocBytes 3, .newArray variant 2, .alloc 0 ⟨0⟩] [2, 0, 1] ↔
      3 ≤ 32 ∧ 1 ≤ 16 ∧ Apart 4096 [.allocBytes 3, .newArray variant 2, .alloc 0 ⟨0⟩] :=
  frees_match_iff (by decide) (by decide) (by decide) (by decide)

/-- Without arguments both arrays stand at one address, and freeing the first one finds two. -/
theorem no_arguments :
    ((construct 4096 512).acquireAll (argumentArrays variant variantPtr 0)).map (·.1.map Block.ptr) =
        .ok [4096, 4096] ∧
      ¬Clean (construct 4096 512) (argumentArrays variant variantPtr 0) [0, 1] := by
  have htypes : ArgumentTypes 4096 variant variantPtr :=
    ⟨by decide, by decide, by decide, by decide⟩
  refine ⟨by decide, fun h => ?_⟩
  exact (arguments_clean_iff htypes (by decide) (by decide) (Nat.zero_le 16)).mp h rfl

end StackAllocator
end CosmicArchitect.Util
