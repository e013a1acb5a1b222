import CosmicArchitect.Library.Machine
import CosmicArchitect.Util.Poly
import Mathlib.Data.List.AList

/-!
# The factory of polys (Util/PolyFactory.h)

Both maps of a factory have stable nodes. The archetype entries are kept behind the addresses
of their nodes and the polys behind the addresses of their headers, so that the pointers in
entries, headers and `polys` lists are addresses. An operation that follows a pointer to a
freed node or dereferences the end iterator is `none`.
-/

namespace CosmicArchitect.Util
open PolyType

/-- A poly: its `Header` and its live components. -/
structure Header (V : Type) where
  archetype : Nat
  components : Nat → Option V := fun _ => none

structure ArchetypeEntry (N : Nat) (CB : Type) where
  archetype : Archetype N CB
  refcount : Nat := 0
  polys : List Nat := []

structure PolyEntry (N : Nat) where
  typeId : TypeID N
  archetype : Nat
  header : Nat
  refcount : Nat := 0
deriving DecidableEq, Repr

structure PolyFactory (N : Nat) (PolyID V CB : Type) [DecidableEq PolyID] where
  archetypes : AList (fun _ : TypeID N => Nat) := ∅
  archetypeEntry : Nat → Option (ArchetypeEntry N CB) := fun _ => none
  header : Nat → Option (Header V) := fun _ => none
  entries : AList (fun _ : PolyID => PolyEntry N) := ∅
  callbacks : AList (fun _ : TypeID N => List (PolyEvent × CB)) := ∅

/- The component types: `refs` are the polys whose reference count a component holds, which
   its destructor gives back. -/
structure Components (PolyID V : Type) where
  info : Nat → PolyTypeInfo V
  refs : V → List PolyID

/-- Addresses that the next allocations return. -/
structure Fresh where
  header : Nat
  archetype : Nat
deriving DecidableEq, Repr

namespace PolyFactory
variable {N : Nat} {PolyID V CB : Type} [DecidableEq PolyID] (C : Components PolyID V)

/-- `type_id` has all the types in `types`. -/
def Includes (typeId types : TypeID N) : Prop := typeId &&& types = types

instance (typeId types : TypeID N) : Decidable (Includes typeId types) :=
  inferInstanceAs (Decidable (_ = _))

/-- `InitType` on a constructed archetype (lines 457-477). -/
def initType (callbacks : AList (fun _ : TypeID N => List (PolyEvent × CB))) (typeId : TypeID N) :
    Archetype N CB :=
  let archetype := (typeIndexes N).foldl (fun archetype i =>
    if typeId.getLsbD i then addType C.info archetype i else archetype) (newArchetype C.info)
  callbacks.entries.foldl (fun archetype e =>
    if Includes typeId e.1 then
      e.2.foldl (fun archetype entry => addCallback archetype entry.1 entry.2) archetype
    else archetype) archetype

/-- The archetype entry of `type_id`, created when there is none. -/
def emplaceArchetype (fresh : Nat) (f : PolyFactory N PolyID V CB) (typeId : TypeID N) :
    PolyFactory N PolyID V CB × Nat :=
  match f.archetypes.lookup typeId with
  | some a => (f, a)
  | none =>
    ({ f with
      archetypes := f.archetypes.insert typeId fresh
      archetypeEntry := Function.update f.archetypeEntry fresh
        (some { archetype := initType C f.callbacks typeId }) }, fresh)

/-- `AllocatePoly` (lines 480-498) -/
def allocatePoly (fresh : Fresh) (f : PolyFactory N PolyID V CB) (typeId : TypeID N) :
    Option (PolyFactory N PolyID V CB × Nat) :=
  let (f, a) := emplaceArchetype C fresh.archetype f typeId
  (f.archetypeEntry a).map fun entry =>
    ({ f with
      archetypeEntry := Function.update f.archetypeEntry a
        (some { entry with refcount := entry.refcount + 1, polys := entry.polys ++ [fresh.header] })
      header := Function.update f.header fresh.header (some { archetype := a }) }, fresh.header)

/-- `DeallocatePoly` (lines 501-517) -/
def deallocatePoly (f : PolyFactory N PolyID V CB) (id : TypeID N) (poly : Nat) :
    Option (PolyFactory N PolyID V CB) :=
  (f.archetypes.lookup id).bind fun a =>
    (f.archetypeEntry a).map fun entry =>
      let entry := { entry with
        polys := entry.polys.filter (· ≠ poly), refcount := entry.refcount - 1 }
      let f := { f with header := Function.update f.header poly none }
      if entry.refcount = 0 then
        { f with
          archetypes := f.archetypes.erase id
          archetypeEntry := Function.update f.archetypeEntry a none }
      else { f with archetypeEntry := Function.update f.archetypeEntry a (some entry) }

/-- Change the reference count of an entry. -/
def count (change : Nat → Nat) (f : PolyFactory N PolyID V CB) (id : PolyID) :
    PolyFactory N PolyID V CB :=
  match f.entries.lookup id with
  | some entry => { f with
      entries := f.entries.insert id { entry with refcount := change entry.refcount } }
  | none => f

/-- Destruct components, each of which gives its references back. -/
def destruct (f : PolyFactory N PolyID V CB) (values : List V) : PolyFactory N PolyID V CB :=
  (values.flatMap C.refs).foldl (count (· - 1)) f

/-! ### The functions that destruct components, for any destructor -/

section With
variable (destruct : PolyFactory N PolyID V CB → List V → Option (PolyFactory N PolyID V CB))

/-- `UpdatePolyType` (lines 520-563) -/
def updatePolyTypeWith (fresh : Fresh) (f : PolyFactory N PolyID V CB) (oldPoly : Nat)
    (oldTypeId newTypeId : TypeID N) : Option (PolyFactory N PolyID V CB × Nat) :=
  if newTypeId = oldTypeId then some (f, oldPoly)
  else do
    let (f, newPoly) ← allocatePoly C fresh f newTypeId
    let oldHeader ← f.header oldPoly
    let newHeader ← f.header newPoly
    let oldArchetype ← f.archetypeEntry oldHeader.archetype
    let newArchetype ← f.archetypeEntry newHeader.archetype
    let components := fun i =>
      if i ∈ typeIndexes N ∧ newArchetype.archetype.HasOffset i then
        if oldArchetype.archetype.HasOffset i then oldHeader.components i
        else some (C.info i).construct
      else none
    let dropped := (typeIndexes N).filterMap fun i =>
      if oldArchetype.archetype.HasOffset i ∧ ¬ newArchetype.archetype.HasOffset i then
        oldHeader.components i
      else none
    let f ← destruct { f with
      header := Function.update f.header newPoly (some { newHeader with components := components }) } dropped
    let f ← deallocatePoly f oldTypeId oldPoly
    some (f, newPoly)

/-- The rest of `SetTypes` and `AddTypes`: the entry moves to another type. -/
def retypeWith (fresh : Fresh) (f : PolyFactory N PolyID V CB) (id : PolyID) (entry : PolyEntry N)
    (newTypeId : TypeID N) : Option (PolyFactory N PolyID V CB) := do
  let (f, newPoly) ← updatePolyTypeWith C destruct fresh f entry.header entry.typeId newTypeId
  let header ← f.header newPoly
  -- destructed components may have changed the reference count of the entry itself
  let entry ← f.entries.lookup id
  some { f with
    entries := f.entries.insert id
      { entry with typeId := newTypeId, archetype := header.archetype, header := newPoly } }

/-- `SetTypes` (lines 279-299) -/
def setTypesWith (fresh : Fresh) (f : PolyFactory N PolyID V CB) (id : PolyID)
    (newTypeId : TypeID N) : Option (PolyFactory N PolyID V CB) :=
  match f.entries.lookup id with
  | none => some f
  | some entry => retypeWith C destruct fresh f id entry (newTypeId ||| headerID N)

/-- `AddTypes` (lines 303-323) -/
def addTypesWith (fresh : Fresh) (f : PolyFactory N PolyID V CB) (id : PolyID)
    (newTypes : TypeID N) : Option (PolyFactory N PolyID V CB) :=
  match f.entries.lookup id with
  | none => some f
  | some entry => retypeWith C destruct fresh f id entry (entry.typeId ||| newTypes)

/-- One iteration of `Cleanup` (lines 434-447). -/
def cleanupEntryWith (f : PolyFactory N PolyID V CB) (id : PolyID) :
    Option (PolyFactory N PolyID V CB) :=
  match f.entries.lookup id with
  | none => some f
  | some entry =>
    if entry.refcount = 0 then do
      let header ← f.header entry.header
      let archetype ← f.archetypeEntry entry.archetype
      let f ← destruct f ((typeIndexes N).filterMap fun i =>
        if archetype.archetype.HasOffset i then header.components i else none)
      let f ← deallocatePoly f entry.typeId entry.header
      some { f with entries := f.entries.erase id }
    else some f

/-- `Cleanup`, visiting the entries in the given order. -/
def cleanupWith (f : PolyFactory N PolyID V CB) : List PolyID → Option (PolyFactory N PolyID V CB)
  | [] => some f
  | id :: order => (cleanupEntryWith destruct f id).bind fun f => cleanupWith f order

end With

/-- `GetPoly` (lines 255-276); the returned `Ref` counts. -/
def getPoly (fresh : Fresh) (f : PolyFactory N PolyID V CB) (id : PolyID)
    (initialTypes : TypeID N) : Option (PolyFactory N PolyID V CB) :=
  match f.entries.lookup id with
  | some _ => some (count (· + 1) f id)
  | none => do
    let typeId := initialTypes ||| headerID N
    let (f, poly) ← allocatePoly C fresh f typeId
    let header ← f.header poly
    let archetype ← f.archetypeEntry header.archetype
    some { f with
      header := Function.update f.header poly
        (some { header with components := constructPoly C.info archetype.archetype })
      entries := f.entries.insert id
        { typeId := typeId, archetype := header.archetype, header := poly, refcount := 1 } }

/-- The polys `Iterate` calls back for, in the order of the archetype map (lines 326-341). -/
def iterate (f : PolyFactory N PolyID V CB) (types : TypeID N) : List Nat :=
  f.archetypes.entries.flatMap fun e =>
    if Includes e.1 types then ((f.archetypeEntry e.2).map (·.polys)).getD [] else []

/-- `AddCallback` (lines 403-418) -/
def addCallback (f : PolyFactory N PolyID V CB) (types : TypeID N) (event : PolyEvent)
    (callback : CB) : PolyFactory N PolyID V CB :=
  { f with
    callbacks := f.callbacks.insert types
      ((f.callbacks.lookup types).getD [] ++ [(event, callback)])
    archetypeEntry := fun a => (f.archetypeEntry a).map fun entry =>
      if f.archetypes.entries.any fun e => e.2 = a ∧ Includes e.1 types then
        { entry with archetype := PolyType.addCallback entry.archetype event callback }
      else entry }

/-- The owner of a factory gives it a component value. -/
def setComponent (f : PolyFactory N PolyID V CB) (poly i : Nat) (v : V) :
    PolyFactory N PolyID V CB :=
  { f with header := Function.update f.header poly ((f.header poly).map fun header =>
      { header with components := Function.update header.components i (some v) }) }

/-! ### Reference counts that are not checked -/

def updatePolyType (fresh : Fresh) (f : PolyFactory N PolyID V CB) (oldPoly : Nat)
    (oldTypeId newTypeId : TypeID N) : Option (PolyFactory N PolyID V CB × Nat) :=
  updatePolyTypeWith C (fun f values => some (destruct C f values)) fresh f oldPoly oldTypeId
    newTypeId

def retype (fresh : Fresh) (f : PolyFactory N PolyID V CB) (id : PolyID) (entry : PolyEntry N)
    (newTypeId : TypeID N) : Option (PolyFactory N PolyID V CB) :=
  retypeWith C (fun f values => some (destruct C f values)) fresh f id entry newTypeId

def setTypes (fresh : Fresh) (f : PolyFactory N PolyID V CB) (id : PolyID)
    (newTypeId : TypeID N) : Option (PolyFactory N PolyID V CB) :=
  setTypesWith C (fun f values => some (destruct C f values)) fresh f id newTypeId

def addTypes (fresh : Fresh) (f : PolyFactory N PolyID V CB) (id : PolyID)
    (newTypes : TypeID N) : Option (PolyFactory N PolyID V CB) :=
  addTypesWith C (fun f values => some (destruct C f values)) fresh f id newTypes

def cleanupEntry (f : PolyFactory N PolyID V CB) (id : PolyID) :
    Option (PolyFactory N PolyID V CB) :=
  cleanupEntryWith (fun f values => some (destruct C f values)) f id

def cleanup (f : PolyFactory N PolyID V CB) (order : List PolyID) :
    Option (PolyFactory N PolyID V CB) :=
  cleanupWith (fun f values => some (destruct C f values)) f order

/-! ### Runs -/

/- Calls of the owners of a factory: its public functions, and what the holders of `Ref`
   values do to reference counts and components. -/
inductive Label (N : Nat) (PolyID V CB : Type)
  | getPoly (id : PolyID) (initialTypes : TypeID N) (fresh : Fresh)
  | setTypes (id : PolyID) (newTypeId : TypeID N) (fresh : Fresh)
  | addTypes (id : PolyID) (newTypes : TypeID N) (fresh : Fresh)
  | cleanup (order : List PolyID)
  | addCallback (types : TypeID N) (event : PolyEvent) (callback : CB)
  | count (id : PolyID) (refcount : Nat)
  | setComponent (poly i : Nat) (v : V)

/-- Addresses of free memory. -/
def IsFree (f : PolyFactory N PolyID V CB) (fresh : Fresh) : Prop :=
  (f.header fresh.header).isNone ∧ (f.archetypeEntry fresh.archetype).isNone

instance (f : PolyFactory N PolyID V CB) (fresh : Fresh) : Decidable (IsFree f fresh) :=
  inferInstanceAs (Decidable (_ ∧ _))

/-- One call. The outer `none`: not possible; the inner: the call has no defined behaviour. -/
def step (f : PolyFactory N PolyID V CB) :
    Label N PolyID V CB → Option (Option (PolyFactory N PolyID V CB))
  | .getPoly id initialTypes fresh =>
    if IsFree f fresh then some (getPoly C fresh f id initialTypes) else none
  | .setTypes id newTypeId fresh =>
    if IsFree f fresh then some (setTypes C fresh f id newTypeId) else none
  | .addTypes id newTypes fresh =>
    if IsFree f fresh then some (addTypes C fresh f id newTypes) else none
  | .cleanup order =>
    if order.Perm f.entries.keys then some (cleanup C f order) else none
  | .addCallback types event callback => some (some (addCallback f types event callback))
  | .count id refcount => some (some (count (fun _ => refcount) f id))
  | .setComponent poly i v => some (some (setComponent f poly i v))

/-- All runs of a factory; a call without defined behaviour leads to `none`. -/
def factoryMachine : Library.Machine (Option (PolyFactory N PolyID V CB)) (Label N PolyID V CB) where
  init s := s = some {}
  step s l := s.bind fun f => step C f l

end PolyFactory
end CosmicArchitect.Util
