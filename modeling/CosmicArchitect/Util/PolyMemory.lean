import CosmicArchitect.Util.PolyLayout

/-!
# Polys in memory

A factory whose polys are blocks on the heap. Their components are objects behind the header, at
the offsets of the archetype, and the functions of `k_type_info` work on addresses. The tables
are those of `PolyFactory`, with nothing in their components. Entries lie in stable nodes, so that
a reference to a poly is its id. A read of no object, a write outside of the blocks or a call
through an entry of `k_type_info` that is not filled is `none`.
-/

namespace CosmicArchitect.Util
open PolyType PolyFactory Library

/-- A call of a function of `k_type_info`. -/
inductive TypeCall
  | construct (i ptr : Nat)
  | destruct (i ptr : Nat)
  | move (i src dst : Nat)
deriving DecidableEq, Repr

structure PolyMemory (N : Nat) (PolyID V CB : Type) [DecidableEq PolyID] where
  tables : PolyFactory N PolyID V CB := {}
  heap : ObjectHeap V := {}
  calls : List TypeCall := []

namespace PolyMemory
variable {N : Nat} {PolyID V CB : Type} [DecidableEq PolyID] (T : TypeTable N PolyID V)

/-! ### Component types (Poly.h:20-43) -/

/-- `ComponentConstruct` -/
def construct (s : PolyMemory N PolyID V CB) (i ptr : Nat) : Option (PolyMemory N PolyID V CB) :=
  if i < T.types then do
    let heap ← s.heap.place ⟨ptr, (T.info i).size⟩ (T.info i).construct
    some { s with heap := heap, calls := s.calls ++ [.construct i ptr] }
  else none

/-- `ComponentDestruct` -/
def destruct (s : PolyMemory N PolyID V CB) (i ptr : Nat) : Option (PolyMemory N PolyID V CB) :=
  if i < T.types then do
    let v ← s.heap.objects ⟨ptr, (T.info i).size⟩
    some { s with
      tables := PolyFactory.destruct T.toComponents s.tables [v]
      heap := s.heap.clear ⟨ptr, (T.info i).size⟩
      calls := s.calls ++ [.destruct i ptr] }
  else none

/- `ComponentMove` of a type that can be moved. What it leaves at the source holds no reference
   and is not read again. -/
def move (s : PolyMemory N PolyID V CB) (i src dst : Nat) : Option (PolyMemory N PolyID V CB) :=
  if i < T.types then do
    let v ← s.heap.objects ⟨src, (T.info i).size⟩
    let heap ← (s.heap.clear ⟨src, (T.info i).size⟩).place ⟨dst, (T.info i).size⟩ v
    some { s with heap := heap, calls := s.calls ++ [.move i src dst] }
  else none

/-- `ptr + m_type_offsets[i]` -/
def componentPtr (archetype : Archetype N CB) (poly i : Nat) : Nat :=
  poly + (archetype.typeOffsets i).toNat

/-- One turn of `ConstructPoly` (Poly.h:329-332). -/
def constructComponent (archetype : Archetype N CB) (poly : Nat) (s : PolyMemory N PolyID V CB)
    (i : Nat) : Option (PolyMemory N PolyID V CB) :=
  if archetype.HasOffset i then construct T s i (componentPtr archetype poly i) else some s

def constructPoly (s : PolyMemory N PolyID V CB) (archetype : Archetype N CB) (poly : Nat) :
    Option (PolyMemory N PolyID V CB) :=
  (typeIndexes N).foldlM (constructComponent T archetype poly) s

/-- One turn of `DestructPoly` (Poly.h:350-353). -/
def destructComponent (archetype : Archetype N CB) (poly : Nat) (s : PolyMemory N PolyID V CB)
    (i : Nat) : Option (PolyMemory N PolyID V CB) :=
  if archetype.HasOffset i then destruct T s i (componentPtr archetype poly i) else some s

def destructPoly (s : PolyMemory N PolyID V CB) (archetype : Archetype N CB) (poly : Nat) :
    Option (PolyMemory N PolyID V CB) :=
  (typeIndexes N).foldlM (destructComponent T archetype poly) s

/-! ### The factory (PolyFactory.h) -/

/-- `AllocatePoly` (lines 480-498), with `malloc` -/
def allocatePoly (fresh : Fresh) (s : PolyMemory N PolyID V CB) (typeId : TypeID N) :
    Option (PolyMemory N PolyID V CB × Nat) := do
  let (tables, poly) ← PolyFactory.allocatePoly T.toComponents fresh s.tables typeId
  let header ← tables.header poly
  let entry ← tables.archetypeEntry header.archetype
  let heap ← s.heap.malloc ⟨poly, entry.archetype.totalSize.toNat⟩
  some ({ s with tables := tables, heap := heap }, poly)

/-- `DeallocatePoly` (lines 501-517), with `free` -/
def deallocatePoly (s : PolyMemory N PolyID V CB) (id : TypeID N) (poly : Nat) :
    Option (PolyMemory N PolyID V CB) := do
  let tables ← PolyFactory.deallocatePoly s.tables id poly
  let heap ← s.heap.free poly
  some { s with tables := tables, heap := heap }

/-- One turn of the loop over the component types (lines 533-558). -/
def updateComponent (oldArchetype newArchetype : Archetype N CB) (oldPoly newPoly : Nat)
    (s : PolyMemory N PolyID V CB) (i : Nat) : Option (PolyMemory N PolyID V CB) :=
  if oldArchetype.HasOffset i then
    if newArchetype.HasOffset i then
      move T s i (componentPtr oldArchetype oldPoly i) (componentPtr newArchetype newPoly i)
    else destruct T s i (componentPtr oldArchetype oldPoly i)
  else if newArchetype.HasOffset i then construct T s i (componentPtr newArchetype newPoly i)
  else some s

/-- `UpdatePolyType` (lines 520-563) -/
def updatePolyType (fresh : Fresh) (s : PolyMemory N PolyID V CB) (oldPoly : Nat)
    (oldTypeId newTypeId : TypeID N) : Option (PolyMemory N PolyID V CB × Nat) :=
  if newTypeId = oldTypeId then some (s, oldPoly)
  else do
    let (s, newPoly) ← allocatePoly T fresh s newTypeId
    let oldHeader ← s.tables.header oldPoly
    let newHeader ← s.tables.header newPoly
    let oldEntry ← s.tables.archetypeEntry oldHeader.archetype
    let newEntry ← s.tables.archetypeEntry newHeader.archetype
    let s ← (typeIndexes N).foldlM
      (updateComponent T oldEntry.archetype newEntry.archetype oldPoly newPoly) s
    let s ← deallocatePoly s oldTypeId oldPoly
    some (s, newPoly)

def setEntry (s : PolyMemory N PolyID V CB) (id : PolyID) (entry : PolyEntry N) :
    PolyMemory N PolyID V CB :=
  { s with tables := { s.tables with entries := s.tables.entries.insert id entry } }

@[simp] theorem setEntry_heap (s : PolyMemory N PolyID V CB) (id : PolyID) (entry : PolyEntry N) :
    (s.setEntry id entry).heap = s.heap := rfl

@[simp] theorem setEntry_calls (s : PolyMemory N PolyID V CB) (id : PolyID) (entry : PolyEntry N) :
    (s.setEntry id entry).calls = s.calls := rfl

theorem setEntry_lookup (s : PolyMemory N PolyID V CB) (id : PolyID) (entry : PolyEntry N) :
    (s.setEntry id entry).tables.entries.lookup id = some entry := AList.lookup_insert _

theorem setEntry_lookup_ne (s : PolyMemory N PolyID V CB) {id id' : PolyID} (entry : PolyEntry N)
    (hne : id' ≠ id) :
    (s.setEntry id entry).tables.entries.lookup id' = s.tables.entries.lookup id' :=
  AList.lookup_insert_ne hne

/-- `GetPoly` (lines 255-276); the returned `Ref` counts. -/
def getPoly (fresh : Fresh) (s : PolyMemory N PolyID V CB) (id : PolyID)
    (initialTypes : TypeID N) : Option (PolyMemory N PolyID V CB) :=
  match s.tables.entries.lookup id with
  | some _ => some { s with tables := count (· + 1) s.tables id }
  | none => do
    let typeId := initialTypes ||| headerID N
    let (s, poly) ← allocatePoly T fresh s typeId
    let header ← s.tables.header poly
    let entry ← s.tables.archetypeEntry header.archetype
    let s ← constructPoly T s entry.archetype poly
    some (s.setEntry id
      { typeId := typeId, archetype := header.archetype, header := poly, refcount := 1 })

/-- The rest of `SetTypes` and `AddTypes`: the entry moves to another type. -/
def retype (fresh : Fresh) (s : PolyMemory N PolyID V CB) (id : PolyID) (entry : PolyEntry N)
    (newTypeId : TypeID N) : Option (PolyMemory N PolyID V CB) := do
  let (s, newPoly) ← updatePolyType T fresh s entry.header entry.typeId newTypeId
  let header ← s.tables.header newPoly
  -- destructed components may have changed the reference count of the entry itself
  let entry ← s.tables.entries.lookup id
  some (s.setEntry id
    { entry with typeId := newTypeId, archetype := header.archetype, header := newPoly })

/-- `SetTypes` (lines 279-299) -/
def setTypes (fresh : Fresh) (s : PolyMemory N PolyID V CB) (id : PolyID)
    (newTypeId : TypeID N) : Option (PolyMemory N PolyID V CB) :=
  match s.tables.entries.lookup id with
  | none => some s
  | some entry => retype T fresh s id entry (newTypeId ||| headerID N)

/-- `AddTypes` (lines 303-323) -/
def addTypes (fresh : Fresh) (s : PolyMemory N PolyID V CB) (id : PolyID)
    (newTypes : TypeID N) : Option (PolyMemory N PolyID V CB) :=
  match s.tables.entries.lookup id with
  | none => some s
  | some entry => retype T fresh s id entry (entry.typeId ||| newTypes)

/-- One iteration of `Cleanup` (lines 434-447). -/
def cleanupEntry (s : PolyMemory N PolyID V CB) (id : PolyID) :
    Option (PolyMemory N PolyID V CB) :=
  match s.tables.entries.lookup id with
  | none => some s
  | some entry =>
    if entry.refcount = 0 then do
      let archetype ← s.tables.archetypeEntry entry.archetype
      let s ← destructPoly T s archetype.archetype entry.header
      let s ← deallocatePoly s entry.typeId entry.header
      some { s with tables := { s.tables with entries := s.tables.entries.erase id } }
    else some s

/-- `Cleanup`, visiting the entries in the given order. -/
def cleanup (s : PolyMemory N PolyID V CB) : List PolyID → Option (PolyMemory N PolyID V CB)
  | [] => some s
  | id :: order => (cleanupEntry T s id).bind fun s => cleanup s order

/-- Assign to a component behind a pointer to its poly, which has the component. -/
def setComponent (s : PolyMemory N PolyID V CB) (poly i : Nat) (v : V) :
    Option (PolyMemory N PolyID V CB) := do
  let header ← s.tables.header poly
  let entry ← s.tables.archetypeEntry header.archetype
  if i ∈ typeIndexes N ∧ entry.archetype.HasOffset i then do
    let heap ← s.heap.place ⟨componentPtr entry.archetype poly i, (T.info i).size⟩ v
    some { s with heap := heap }
  else none

/-! ### References (`WeakRef`, `Ref`) -/

def getTypeID (s : PolyMemory N PolyID V CB) (ref : PolyID) : Option (TypeID N) :=
  (s.tables.entries.lookup ref).map (·.typeId)

def getType (s : PolyMemory N PolyID V CB) (ref : PolyID) : Option (Archetype N CB) :=
  (s.tables.entries.lookup ref).bind fun entry =>
    (s.tables.archetypeEntry entry.archetype).map (·.archetype)

def getHeader (s : PolyMemory N PolyID V CB) (ref : PolyID) : Option Nat :=
  (s.tables.entries.lookup ref).map (·.header)

/-- `Get<T>()` -/
def get (s : PolyMemory N PolyID V CB) (ref : PolyID) (i : Nat) : Option V := do
  let archetype ← getType s ref
  let header ← getHeader s ref
  s.heap.objects ⟨componentPtr archetype header i, (T.info i).size⟩

/-! ### Runs -/

/-- Addresses that the allocations for a poly of the type can return. -/
def CanAllocate (s : PolyMemory N PolyID V CB) (fresh : Fresh) (typeId : TypeID N) : Prop :=
  (s.tables.archetypeEntry fresh.archetype).isNone ∧ s.heap.Available (T.block typeId fresh.header)

instance (s : PolyMemory N PolyID V CB) (fresh : Fresh) (typeId : TypeID N) :
    Decidable (CanAllocate T s fresh typeId) :=
  inferInstanceAs (Decidable (_ ∧ _))

/-- One call. The outer `none`: not possible; the inner: the call has no defined behaviour. -/
def step (s : PolyMemory N PolyID V CB) :
    Label N PolyID V CB → Option (Option (PolyMemory N PolyID V CB))
  | .getPoly id initialTypes fresh =>
    if CanAllocate T s fresh (initialTypes ||| headerID N) then
      some (getPoly T fresh s id initialTypes) else none
  | .setTypes id newTypeId fresh =>
    if CanAllocate T s fresh (newTypeId ||| headerID N) then
      some (setTypes T fresh s id newTypeId) else none
  | .addTypes id newTypes fresh =>
    if ∀ entry ∈ s.tables.entries.lookup id, CanAllocate T s fresh (entry.typeId ||| newTypes) then
      some (addTypes T fresh s id newTypes) else none
  | .cleanup order =>
    if order.Perm s.tables.entries.keys then some (cleanup T s order) else none
  | .addCallback types event callback =>
    some (some { s with tables := PolyFactory.addCallback s.tables types event callback })
  | .count id refcount => some (some { s with tables := count (fun _ => refcount) s.tables id })
  | .setComponent poly i v => (setComponent T s poly i v).map some

/-- All runs of a factory; a call without defined behaviour leads to `none`. -/
def memoryMachine : Machine (Option (PolyMemory N PolyID V CB)) (Label N PolyID V CB) where
  init s := s = some {}
  step s l := s.bind fun s => step T s l

end PolyMemory
end CosmicArchitect.Util
