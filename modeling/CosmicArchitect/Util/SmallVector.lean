import CosmicArchitect.Library.SlotMemory
import Mathlib.Data.Option.Basic

/-!
# The small vector (Util/SmallVector.h)

A small vector of constant capacity keeps its items in its own storage, a growing one moves them
to the heap. Both share the base, which asks the derived vector for room with `grow`.
-/

namespace CosmicArchitect.Util

open Library

universe u
variable {α : Type u}

/-- The item type: what its default constructor makes, what a move leaves behind, `sizeof`, and
whether its `operator=` may have raw memory for its target, where no item was constructed. -/
structure ItemType (α : Type u) where
  default : α
  moved : α → α
  size : Nat
  sized : 0 < size
  assignsRaw : Bool

/-- `ptr()` is the start of `buffer`, which is `storage` unless a growing vector uses the heap. -/
structure SmallVectorBase where
  storage : Nat
  buffer : Nat
  capacity : Nat
  size : Nat := 0
deriving DecidableEq, Repr

namespace SmallVectorBase

def ptr (v : SmallVectorBase) : Slot := ⟨v.buffer, 0⟩

def beginIt (v : SmallVectorBase) : Slot := v.ptr

def endIt (v : SmallVectorBase) : Slot := v.ptr.add v.size

/-- A vector and the memory around it. -/
structure State (α : Type u) where
  memory : SlotMemory α
  vector : SmallVectorBase

variable (T : ItemType α) (grow : Nat → State α → Option (State α))

/-- `std::move_backward`; the range has to lie in one buffer (`none`: undefined). -/
def moveBackward (m : SlotMemory α) (first last destLast : Slot) : Option (SlotMemory α) :=
  if first.buffer = last.buffer ∧ first.index ≤ last.index then
    some (m.moveEachBackward T.moved last destLast (last.index - first.index).toNat)
  else none

/-- The position is one in the buffer from before the call of `grow`. -/
def emplace (s : State α) (pos : Slot) (item : α) : Option (Slot × State α) :=
  match grow (s.vector.size + 1) s with
  | none => some (s.vector.endIt, s)
  | some s =>
    (moveBackward T s.memory pos s.vector.endIt (pos.add 1)).map fun memory =>
      (s.vector.endIt,
        { memory := memory.store s.vector.endIt (some item)
          vector := { s.vector with size := s.vector.size + 1 } })

def insert (s : State α) (pos : Slot) (value : α) : Option (Slot × State α) :=
  emplace T grow s pos value

def emplaceBack (s : State α) (item : α) : Option (Slot × State α) :=
  emplace T grow s s.vector.endIt item

def emplaceFront (s : State α) (item : α) : Option (Slot × State α) :=
  emplace T grow s s.vector.beginIt item

def pushBack (s : State α) (item : α) : Option (Slot × State α) := emplaceBack T grow s item

def pushFront (s : State α) (item : α) : Option (Slot × State α) := emplaceFront T grow s item

/-- Whether there is room is not looked at. -/
def resize (s : State α) (newSize : Nat) : State α :=
  let s := (grow newSize s).getD s
  if newSize > s.vector.size then
    { memory := s.memory.fill s.vector.beginIt (some T.default) newSize
      vector := { s.vector with size := newSize } }
  else s

/-- `erase` of the items from `first` on before `last`. -/
def erase (s : State α) (first last : Nat) : State α :=
  if last > s.vector.size then s
  else
    let memory := s.memory.fill (s.vector.beginIt.add first) none (last - first)
    let memory :=
      if last < s.vector.size then
        memory.moveEach T.moved (s.vector.beginIt.add last) (s.vector.beginIt.add first)
          (s.vector.size - last)
      else memory
    { memory := memory
      vector := { s.vector with size := s.vector.size - (last - first) } }

/-- `std::remove_if` over `count` items from `first` on: the others are moved together at the
front, and their number is returned. -/
def removeIf (p : α → Bool) (m : SlotMemory α) (first : Slot) : Nat → SlotMemory α × Nat
  | 0 => (m, 0)
  | count + 1 =>
    let (m, kept) := removeIf p m first count
    if (m.read (first.add count)).any p then (m, kept)
    else if kept = count then (m, kept + 1)
    else (m.move T.moved (first.add count) (first.add kept), kept + 1)

/-- What is read from `begin()` to `end()`. -/
def State.contents (s : State α) : List (Option α) :=
  s.memory.contents s.vector.beginIt s.vector.size

/-- The slots written since the state `s`. -/
def State.writtenSince (s s' : State α) : List Slot :=
  s'.memory.written.drop s.memory.written.length

/-! ### Appending and removing items -/

section
variable {T grow} {s : State α} {items : List α}

/-- At the end no item has to be moved. -/
theorem emplaceBack_room (hgrow : grow (s.vector.size + 1) s = some s)
    (hroom : s.vector.size < s.memory.room s.vector.buffer) (hs : s.contents = items.map some)
    (item : α) :
    emplaceBack T grow s item = some (s.vector.endIt,
      { memory := s.memory.store s.vector.endIt (some item)
        vector := { s.vector with size := s.vector.size + 1 } }) ∧
    State.contents { memory := s.memory.store s.vector.endIt (some item)
                     vector := { s.vector with size := s.vector.size + 1 } } =
      (items ++ [item]).map some := by
  obtain ⟨hsize, hitem⟩ := SlotMemory.contents_eq_iff.mp hs
  constructor
  · simp [emplaceBack, emplace, hgrow, moveBackward, SlotMemory.moveEachBackward]
  · refine SlotMemory.contents_eq_iff.mpr ⟨by simp [hsize], fun i hi => ?_⟩
    show (s.memory.store s.vector.endIt (some item)).read (s.vector.beginIt.add i) = _
    rw [List.length_append, List.length_singleton] at hi
    rcases Nat.lt_or_ge i items.length with hlt | hge
    · have hne : s.vector.beginIt.add i ≠ s.vector.endIt := by
        rw [endIt, hsize]
        exact SlotMemory.add_ne_add (Nat.ne_of_lt hlt)
      rw [SlotMemory.read_store_of_ne hne, hitem i hlt, List.getElem_append_left hlt]
    · obtain rfl : i = items.length := by omega
      have hwithin : s.memory.Within s.vector.endIt := by
        simp only [SlotMemory.Within, endIt, ptr, Slot.add_index, Slot.add_buffer]
        omega
      have hsame : s.vector.beginIt.add items.length = s.vector.endIt := by
        rw [endIt, hsize]
        rfl
      rw [hsame, SlotMemory.read_store_self hwithin, List.getElem_concat_length rfl]

/-- A position in a buffer that has been replaced is of no use. -/
theorem emplace_replaced {s' : State α} {pos : Slot} (hgrow : grow (s.vector.size + 1) s = some s')
    (hne : pos.buffer ≠ s'.vector.buffer) (item : α) : emplace T grow s pos item = none := by
  have hnone : moveBackward T s'.memory pos s'.vector.endIt (pos.add 1) = none :=
    if_neg fun h => hne h.1
  simp only [emplace, hgrow, hnone, Option.map_none]

theorem removeIf_buffers (p : α → Bool) (m : SlotMemory α) (first : Slot) (count : Nat) :
    (removeIf T p m first count).1.room = m.room ∧
      (removeIf T p m first count).1.next = m.next := by
  induction count with
  | zero => exact ⟨rfl, rfl⟩
  | succ count ih =>
    simp only [removeIf]
    split
    · exact ih
    · split
      · exact ih
      · exact ih

/-- Of the first `count` items the ones to keep stand together; the items behind are not touched. -/
theorem removeIf_spec (p : α → Bool) (m : SlotMemory α) (first : Slot)
    (hitem : ∀ i (h : i < items.length), m.read (first.add i) = some items[i]) (count : Nat)
    (hcount : count ≤ items.length) :
    (removeIf T p m first count).1.contents first (removeIf T p m first count).2 =
        ((items.take count).filter fun x => !p x).map some ∧
      (removeIf T p m first count).2 ≤ count ∧
      ∀ i : Nat, count ≤ i →
        (removeIf T p m first count).1.read (first.add i) = m.read (first.add i) := by
  induction count with
  | zero => exact ⟨rfl, Nat.le_refl _, fun i _ => rfl⟩
  | succ count ih =>
    obtain ⟨hcontents, hkept, hbehind⟩ := ih (by omega)
    have hroom := (removeIf_buffers (T := T) p m first count).1
    have hlast : (removeIf T p m first count).1.read (first.add count) = some items[count] := by
      rw [hbehind count (Nat.le_refl _)]
      exact hitem count (by omega)
    simp only [removeIf]
    generalize removeIf T p m first count = r at *
    obtain ⟨m', kept⟩ := r
    dsimp only at hcontents hkept hbehind hroom hlast ⊢
    rw [List.take_succ_eq_append_getElem (by omega), List.filter_append, List.map_append, ← hcontents,
      hlast, Option.any_some]
    by_cases hp : p items[count] = true
    · have hdrop : [items[count]].filter (fun x => !p x) = [] := by simp [hp]
      rw [if_pos hp, hdrop, List.map_nil, List.append_nil]
      exact ⟨rfl, by omega, fun i hi => hbehind i (by omega)⟩
    · have hstay : [items[count]].filter (fun x => !p x) = [items[count]] := by simp [hp]
      rw [if_neg hp, hstay]
      by_cases hsame : kept = count
      · rw [if_pos hsame]
        refine ⟨?_, Nat.succ_le_succ hkept, fun i hi => hbehind i (by omega)⟩
        rw [SlotMemory.contents_succ, hsame, hlast]
        rfl
      · rw [if_neg hsame]
        have hwithin : m'.Within (first.add kept) := by
          have hread := SlotMemory.within_of_read (hitem kept (by omega))
          rw [SlotMemory.Within, hroom]
          exact hread
        have hother : ∀ i : Nat, i ≠ count → i ≠ kept →
            (m'.move T.moved (first.add count) (first.add kept)).read (first.add i) =
              m'.read (first.add i) := fun i hi hi' =>
          SlotMemory.read_move_of_ne T.moved (SlotMemory.add_ne_add hi) (SlotMemory.add_ne_add hi')
        refine ⟨?_, Nat.succ_le_succ hkept, fun i hi => ?_⟩
        · rw [SlotMemory.contents_succ, SlotMemory.read_move_target T.moved hwithin, hlast]
          congr 1
          exact SlotMemory.contents_congr fun i hi => hother i (by omega) (by omega)
        · rw [hother i (by omega) (by omega)]
          exact hbehind i (by omega)

/-- Erased to the end, the vector is left with the items before. -/
theorem erase_end {kept : Nat} (hkept : kept ≤ s.vector.size) :
    (erase T s kept s.vector.size).contents = s.memory.contents s.vector.beginIt kept ∧
      (erase T s kept s.vector.size).vector = { s.vector with size := kept } ∧
      (erase T s kept s.vector.size).memory.room = s.memory.room ∧
      (erase T s kept s.vector.size).memory.next = s.memory.next := by
  have hsize : s.vector.size - (s.vector.size - kept) = kept := by omega
  simp only [erase, gt_iff_lt, Nat.lt_irrefl, if_false, hsize, SlotMemory.fill_room,
    SlotMemory.fill_next, and_true]
  refine SlotMemory.contents_congr fun i hi => SlotMemory.read_fill_of_ne fun j _ => ?_
  replace hi : i < kept := hi
  rw [Slot.add_add, ← Int.natCast_add]
  exact SlotMemory.add_ne_add (by omega)

/-- `std::remove_if` and the erasure of what is behind the items kept. -/
def eraseIf (p : α → Bool) (s : State α) : Nat × State α :=
  let removed := removeIf T p s.memory s.vector.beginIt s.vector.size
  let s := { s with memory := removed.1 }
  (s.vector.size - removed.2, erase T s removed.2 s.vector.size)

theorem eraseIf_spec (p : α → Bool) (hs : s.contents = items.map some) :
    (eraseIf (T := T) p s).1 = items.countP p ∧
      (eraseIf (T := T) p s).2.contents = (items.filter fun x => !p x).map some ∧
      (eraseIf (T := T) p s).2.vector =
        { s.vector with size := (items.filter fun x => !p x).length } ∧
      (eraseIf (T := T) p s).2.memory.room = s.memory.room ∧
      (eraseIf (T := T) p s).2.memory.next = s.memory.next := by
  obtain ⟨hsize, hitem⟩ := SlotMemory.contents_eq_iff.mp hs
  obtain ⟨hcontents, hkept, _⟩ := removeIf_spec (T := T) p s.memory s.vector.beginIt hitem
    s.vector.size (Nat.le_of_eq hsize)
  rw [List.take_of_length_le (Nat.le_of_eq hsize.symm)] at hcontents
  have hlength := (SlotMemory.contents_eq_iff.mp hcontents).1
  have hcount := List.length_eq_countP_add_countP p (l := items)
  have hfilter : (items.filter fun x => !p x).length = items.countP fun x => decide ¬p x = true := by
    rw [List.countP_eq_length_filter]
    congr 2
    funext x
    simp
  obtain ⟨herased, hvector, hroom, hnext⟩ := erase_end (T := T)
    (s := { s with memory := (removeIf T p s.memory s.vector.beginIt s.vector.size).1 }) hkept
  refine ⟨?_, ?_, ?_, ?_, ?_⟩
  · show s.vector.size - _ = _
    omega
  · rw [← hcontents]
    exact herased
  · rw [← hlength]
    exact hvector
  · exact hroom.trans (removeIf_buffers p _ _ _).1
  · exact hnext.trans (removeIf_buffers p _ _ _).2

end

/-! ### Resizing within the room -/

/-- The items of a vector resized to `n`. -/
def resized (items : List α) (n : Nat) : List α :=
  items.take n ++ List.replicate (n - items.length) T.default

variable {T grow} {s : State α} {items : List α} {n : Nat}

/-- Growing constructs all items anew. -/
theorem resize_contents (hgrow : (grow n s).getD s = s) (hroom : n ≤ s.memory.room s.vector.buffer)
    (hlt : s.vector.size < n) :
    (resize T grow s n).contents = (List.replicate n T.default).map some := by
  simp only [resize, hgrow, gt_iff_lt, if_pos hlt]
  refine SlotMemory.contents_eq_iff.mpr ⟨List.length_replicate.symm, fun i hi => ?_⟩
  rw [List.length_replicate] at hi
  rw [List.getElem_replicate]
  apply SlotMemory.read_fill hi
  simp only [SlotMemory.Within, beginIt, ptr, Slot.add_index, Slot.add_buffer]
  omega

/-- Shrinking does nothing. -/
theorem resize_same (hgrow : (grow n s).getD s = s) (hle : n ≤ s.vector.size) :
    resize T grow s n = s := by
  simp only [resize, hgrow, gt_iff_lt, if_neg (Nat.not_lt.mpr hle)]

theorem replicate_eq_resized (hlt : items.length < n) :
    List.replicate n T.default = resized T items n ↔ ∀ x ∈ items, x = T.default := by
  have hsplit : List.replicate n T.default =
      List.replicate items.length T.default ++ List.replicate (n - items.length) T.default := by
    rw [List.replicate_append_replicate]
    congr 1
    omega
  rw [resized, List.take_of_length_le (Nat.le_of_lt hlt), hsplit, List.append_cancel_right_eq,
    eq_comm, List.eq_replicate_iff]
  exact and_iff_right rfl

theorem resize_iff (hgrow : (grow n s).getD s = s) (hroom : n ≤ s.memory.room s.vector.buffer)
    (h : s.contents = items.map some) :
    (resize T grow s n).contents = (resized T items n).map some ↔
      n = items.length ∨ (items.length < n ∧ ∀ x ∈ items, x = T.default) := by
  have hsize : s.vector.size = items.length := (SlotMemory.contents_eq_iff.mp h).1
  have hinj := (Option.some_injective α).list_map
  rcases Nat.lt_or_ge items.length n with hlt | hle
  · rw [resize_contents hgrow hroom (by omega), hinj.eq_iff, replicate_eq_resized hlt]
    exact ⟨fun hall => Or.inr ⟨hlt, hall⟩, fun hor => (hor.resolve_left (by omega)).2⟩
  · rw [resize_same hgrow (by omega), h, hinj.eq_iff, resized, Nat.sub_eq_zero_of_le hle,
      List.replicate_zero, List.append_nil]
    constructor
    · intro htake
      have hlength := congrArg List.length htake
      rw [List.length_take] at hlength
      omega
    · intro hor
      rw [List.take_of_length_le (by omega)]

end SmallVectorBase

namespace SmallVector
open SmallVectorBase

/-- There is room up to the constant capacity. -/
def grow (newSize : Nat) (s : State α) : Option (State α) :=
  if newSize > s.vector.capacity then none else some s

/-- A small vector of constant capacity `k` that holds the items. -/
structure Holds (k : Nat) (s : State α) (items : List α) : Prop where
  buffer : s.vector.buffer = s.vector.storage
  capacity : s.vector.capacity = k
  room : s.memory.room s.vector.buffer = k
  fits : items.length ≤ k
  contents : s.contents = items.map some

variable {T : ItemType α} {s : State α} {items : List α} {k : Nat}

theorem Holds.size (h : Holds k s items) : s.vector.size = items.length :=
  (SlotMemory.contents_eq_iff.mp h.contents).1

/-! ### Insertion -/

inductive Insertion (α : Type u)
  | emplace (index : Nat) (item : α)
  | insert (index : Nat) (item : α)
  | pushFront (item : α)
  | pushBack (item : α)

namespace Insertion

def item : Insertion α → α
  | emplace _ item | insert _ item | pushFront item | pushBack item => item

/-- Where the item is to stand. -/
def index (s : State α) : Insertion α → Nat
  | emplace index _ | insert index _ => index
  | pushFront _ => 0
  | pushBack _ => s.vector.size

def call (T : ItemType α) (s : State α) : Insertion α → Option (Slot × State α)
  | emplace index item => SmallVectorBase.emplace T grow s (s.vector.beginIt.add index) item
  | insert index item => SmallVectorBase.insert T grow s (s.vector.beginIt.add index) item
  | pushFront item => SmallVectorBase.pushFront T grow s item
  | pushBack item => SmallVectorBase.pushBack T grow s item

theorem call_eq (T : ItemType α) (s : State α) (c : Insertion α) :
    c.call T s = SmallVectorBase.emplace T grow s (s.vector.beginIt.add (c.index s)) c.item := by
  cases c with
  | emplace | insert | pushBack => rfl
  | pushFront item => simp [call, index, Insertion.item, SmallVectorBase.pushFront, emplaceFront]

end Insertion

/-- The item stands at index `i` between the ones before and behind, which are kept, its position
is returned, and only the slots of the vector and the one behind it are written. -/
structure Inserted (s : State α) (items : List α) (i : Nat) (item : α)
    (position : Slot) (s' : State α) : Prop where
  contents : s'.contents = (items.take i ++ [item] ++ items.drop i).map some
  position : position = s.vector.beginIt.add i
  written : ∀ w ∈ s.writtenSince s', w.buffer = s.vector.buffer ∧ 0 ≤ w.index ∧
    w.index ≤ items.length

/-- A full vector refuses with `end()` and nothing changed. -/
def Inserts (T : ItemType α) (s : State α) (items : List α) (c : Insertion α) : Prop :=
  if items.length < s.vector.capacity then
    ∃ position s', c.call T s = some (position, s') ∧
      Inserted s items (c.index s) c.item position s'
  else c.call T s = some (s.vector.endIt, s)

theorem emplace_room (h : Holds k s items) (hroom : items.length < k) {i : Nat}
    (hi : i ≤ items.length) (item : α) : ∃ s',
      emplace T grow s (s.vector.beginIt.add i) item = some (s.vector.endIt, s') ∧
      s' = { memory := (s.memory.moveEachBackward T.moved s.vector.endIt
                (s.vector.beginIt.add (i + 1)) (items.length - i)).store s.vector.endIt (some item)
             vector := { s.vector with size := s.vector.size + 1 } } := by
  have hgrow : grow (s.vector.size + 1) s = some s := by
    rw [grow, if_neg]
    rw [h.size, h.capacity]
    omega
  refine ⟨_, ?_, rfl⟩
  have hbetween : (s.vector.beginIt.add i).buffer = s.vector.endIt.buffer ∧
      (s.vector.beginIt.add i).index ≤ s.vector.endIt.index := by
    refine ⟨rfl, ?_⟩
    simp only [beginIt, endIt, ptr, Slot.add_index, h.size]
    omega
  have hcount : (s.vector.endIt.index - (s.vector.beginIt.add i).index).toNat =
      items.length - i := by
    simp only [beginIt, endIt, ptr, Slot.add_index, h.size]
    omega
  have htarget : (s.vector.beginIt.add i).add 1 = s.vector.beginIt.add (i + 1) := by
    rw [Slot.add_add]
  simp only [emplace, hgrow, moveBackward, if_pos hbetween, hcount, htarget, Option.map_some]

theorem emplace_full (h : Holds k s items) (hfull : items.length = k) (pos : Slot)
    (item : α) : emplace T grow s pos item = some (s.vector.endIt, s) := by
  have hgrow : grow (s.vector.size + 1) s = none := by
    rw [grow, if_pos]
    rw [h.size, h.capacity]
    omega
  simp only [emplace, hgrow]

theorem emplace_end (h : Holds k s items) (hroom : items.length < k) (item : α) :
    ∃ s', emplace T grow s s.vector.endIt item = some (s.vector.endIt, s') ∧
      s'.contents = (items ++ [item]).map some ∧ s.writtenSince s' = [s.vector.endIt] := by
  have hgrow : grow (s.vector.size + 1) s = some s := by
    rw [grow, if_neg]
    rw [h.size, h.capacity]
    omega
  obtain ⟨hcall, hcontents⟩ := emplaceBack_room (T := T) hgrow (by rw [h.room, h.size]; exact hroom)
    h.contents item
  exact ⟨_, hcall, hcontents, by simp [State.writtenSince]⟩

/-- The returned position is the old end wherever the item should go. -/
theorem inserts_iff (h : Holds k s items) (c : Insertion α) (hi : c.index s ≤ items.length) :
    Inserts T s items c ↔ c.index s = items.length ∨ items.length = k := by
  rw [Inserts, h.capacity, c.call_eq]
  rcases Nat.lt_or_ge items.length k with hroom | hfull
  · rw [if_pos hroom]
    constructor
    · rintro ⟨position, s', hcall, hinserted⟩
      obtain ⟨_, hend, _⟩ := emplace_room (T := T) h hroom hi c.item
      rw [hend] at hcall
      have hsame : s.vector.endIt = s.vector.beginIt.add (c.index s) := by
        rw [← hinserted.position]
        exact congrArg Prod.fst (Option.some.inj hcall)
      have hindex := congrArg Slot.index hsame
      simp only [beginIt, endIt, ptr, Slot.add_index, h.size] at hindex
      omega
    · intro hor
      have hlast : c.index s = items.length := by omega
      have hend : s.vector.beginIt.add items.length = s.vector.endIt := by
        rw [endIt, h.size]
        rfl
      obtain ⟨s', hcall, hcontents, hwritten⟩ := emplace_end (T := T) h hroom c.item
      rw [hlast, hend]
      refine ⟨_, s', hcall, ?_, hend.symm, ?_⟩
      · rw [hcontents, List.take_length, List.drop_length, List.append_nil]
      · intro w hw
        rw [hwritten, List.mem_singleton] at hw
        rw [hw, endIt, h.size]
        simp [ptr]
  · have heq : items.length = k := Nat.le_antisymm h.fits hfull
    rw [if_neg (Nat.not_lt.mpr hfull), emplace_full h heq]
    exact ⟨fun _ => Or.inr heq, fun _ => rfl⟩

/-- A vector whose storage is the buffer 0. -/
def ofItems (k : Nat) (items : List α) : State α where
  memory := {
    room := fun b => if b = 0 then k else 0
    items := fun s => if s.buffer = 0 then items[s.index.toNat]? else none
    next := 1 }
  vector := { storage := 0, buffer := 0, capacity := k, size := items.length }

theorem ofItems_holds {k : Nat} {items : List α} (h : items.length ≤ k) :
    Holds k (ofItems k items) items where
  buffer := rfl
  capacity := rfl
  room := rfl
  fits := h
  contents := by
    refine SlotMemory.contents_eq_iff.mpr ⟨rfl, fun i hi => ?_⟩
    have hwithin : (ofItems k items).memory.Within ((ofItems k items).vector.beginIt.add i) := by
      simp only [SlotMemory.Within, beginIt, ptr, Slot.add_index, Slot.add_buffer, ofItems, if_pos]
      omega
    rw [SlotMemory.read_within hwithin]
    simp [ofItems, beginIt, ptr, hi]

/-- Numbers, which a move leaves as they are. -/
def number : ItemType Nat :=
  { default := 0, moved := id, size := 4, sized := by decide, assignsRaw := true }

theorem inserts_iff_pushBack : Inserts number (ofItems 4 [1, 2]) [1, 2] (.pushBack 9) ↔
    2 = 2 ∨ 2 = 4 :=
  inserts_iff (ofItems_holds (by decide)) (.pushBack 9) (by decide)

/-- The item pushed to the front of two ends up behind them, the first of them is lost and the
slot before the storage written. -/
theorem pushFront_two : ¬Inserts number (ofItems 4 [1, 2]) [1, 2] (.pushFront 9) ∧
    ∃ s', pushFront number grow (ofItems 4 [1, 2]) 9 = some (⟨0, 2⟩, s') ∧
      s'.contents = [some 2, some 2, some 9] ∧
      ⟨0, -1⟩ ∈ (ofItems 4 [1, 2]).writtenSince s' := by
  have hcall : ∃ s', pushFront number grow (ofItems 4 [1, 2]) 9 = some (⟨0, 2⟩, s') ∧
      s'.contents = [some 2, some 2, some 9] ∧
      ⟨0, -1⟩ ∈ (ofItems 4 [1, 2]).writtenSince s' := ⟨_, rfl, by decide, by decide⟩
  refine ⟨fun h => ?_, hcall⟩
  obtain ⟨s', hcall, hcontents, _⟩ := hcall
  rw [Inserts, if_pos (by decide)] at h
  obtain ⟨position, t, ht, hinserted⟩ := h
  rw [Insertion.call, hcall] at ht
  cases ht
  rw [hinserted.contents] at hcontents
  exact absurd hcontents (by decide)

end SmallVector
end CosmicArchitect.Util
