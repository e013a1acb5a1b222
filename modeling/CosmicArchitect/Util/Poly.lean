import Mathlib.Data.BitVec
import Mathlib.Logic.Function.Basic

/-!
# Archetypes (Util/Poly.h)

An archetype knows its set of component types and where in a poly each of them lies. `V` are
the values of components, `CB` the callbacks of a factory.
-/

namespace CosmicArchitect.Util

/-- `std::bitset<N>`, one bit for each component type. -/
abbrev TypeID (N : Nat) := BitVec N

/-- `PolyEvent` (PolyFactory.h) -/
inductive PolyEvent
  | beginLoad
  | beginUnload
  | mainUpdate
  | taskUpdate
deriving DecidableEq, Repr

/-- One entry of `k_type_info`; moving keeps the value and destructing drops it. -/
structure PolyTypeInfo (V : Type) where
  construct : V
  size : Nat

namespace PolyType
variable {N : Nat} {V CB : Type}

def kInvalidOffset : UInt16 := 0xFFFF

/-- `k_type_index<Header>` -/
def headerIndex : Nat := 0

def createTypeID (N : Nat) (indexes : List Nat) : TypeID N :=
  indexes.foldl (fun id i => id ||| BitVec.twoPow N i) 0

/-- `CreateTypeID<Header>()` -/
def headerID (N : Nat) : TypeID N := createTypeID N [headerIndex]

structure Archetype (N : Nat) (CB : Type) where
  id : TypeID N := 0
  typeOffsets : Nat → UInt16 := fun _ => kInvalidOffset
  totalSize : UInt16 := 0
  typeCallbacks : PolyEvent → List CB := fun _ => []

/-- `AddType` (Poly.h:217-232) -/
def addType (info : Nat → PolyTypeInfo V) (archetype : Archetype N CB) (index : Nat) :
    Archetype N CB :=
  { archetype with
    typeOffsets := Function.update archetype.typeOffsets index archetype.totalSize
    id := archetype.id ||| BitVec.twoPow N index
    totalSize := archetype.totalSize + UInt16.ofNat (info index).size }

/-- The constructor, which adds the header. -/
def newArchetype (info : Nat → PolyTypeInfo V) : Archetype N CB := addType info {} headerIndex

def addCallback (archetype : Archetype N CB) (event : PolyEvent) (callback : CB) :
    Archetype N CB :=
  { archetype with
    typeCallbacks := Function.update archetype.typeCallbacks event
      (archetype.typeCallbacks event ++ [callback]) }

/-- The archetype has the component type `index`. -/
def Archetype.HasOffset (archetype : Archetype N CB) (index : Nat) : Prop :=
  archetype.typeOffsets index ≠ kInvalidOffset

instance (archetype : Archetype N CB) (index : Nat) : Decidable (archetype.HasOffset index) :=
  inferInstanceAs (Decidable (_ ≠ _))

/-- The indexes of the loops over all component types but the header. -/
def typeIndexes (N : Nat) : List Nat := List.range' 1 (N - 1)

/-- `ConstructPoly` (Poly.h:315-334): the components of a new poly. -/
def constructPoly (info : Nat → PolyTypeInfo V) (archetype : Archetype N CB) : Nat → Option V :=
  fun i => if i ∈ typeIndexes N ∧ archetype.HasOffset i then some (info i).construct else none

end PolyType
end CosmicArchitect.Util
