import CosmicArchitect.Util.PolyFactory
import Mathlib.Data.List.ReduceOption

/-!
# References to polys (`PolyFactory::Ref`)

A `Ref` is null or names an entry, whose reference count it holds. `Ref` values lie in vectors
of the owners of a factory and in components. `fetch_sub` is `none` on a count of zero and on an
entry that does not exist.
-/

namespace CosmicArchitect.Util.PolyFactory
open PolyType

/-- A component: its `Ref` values, members as well as elements of vectors, and its other data. -/
structure Component (PolyID D : Type) where
  refs : List (Option PolyID)
  data : D

/-- What `MakeTypeInfo` uses of the component types. A `Ref` member is constructed null. -/
structure ComponentTypes (D : Type) where
  size : Nat → Nat
  members : Nat → Nat
  data : Nat → D

section Checked
variable {N : Nat} {PolyID V CB : Type} [DecidableEq PolyID] (C : Components PolyID V)

/-- `refcount.fetch_sub(1)` -/
def fetchSub (f : PolyFactory N PolyID V CB) (id : PolyID) : Option (PolyFactory N PolyID V CB) :=
  (f.entries.lookup id).bind fun entry =>
    if 0 < entry.refcount then some (count (· - 1) f id) else none

/-- `refcount.fetch_add(1)` -/
def fetchAdd (f : PolyFactory N PolyID V CB) (id : PolyID) : Option (PolyFactory N PolyID V CB) :=
  (f.entries.lookup id).map fun _ => count (· + 1) f id

/-- The destructors of several `Ref` values. -/
def releaseAll (f : PolyFactory N PolyID V CB) : List PolyID → Option (PolyFactory N PolyID V CB)
  | [] => some f
  | id :: ids => (fetchSub f id).bind fun f => releaseAll f ids

/-- Destruct components, with the counts checked. -/
def destructChecked (f : PolyFactory N PolyID V CB) (values : List V) :
    Option (PolyFactory N PolyID V CB) :=
  releaseAll f (values.flatMap C.refs)

end Checked

variable {N : Nat} {PolyID D CB : Type} [DecidableEq PolyID]

def ComponentTypes.components (T : ComponentTypes D) : Components PolyID (Component PolyID D) where
  info i :=
    { construct := { refs := List.replicate (T.members i) none, data := T.data i }
      size := T.size i }
  refs component := component.refs.reduceOption

/-- A factory and the vectors of `Ref` values outside of its polys. -/
structure RefState (N : Nat) (PolyID D CB : Type) [DecidableEq PolyID] where
  factory : PolyFactory N PolyID (Component PolyID D) CB := {}
  vectors : List (List (Option PolyID)) := []

/-- Where `Ref` values lie: in a vector, or in a component of a poly. -/
inductive Holder (PolyID : Type)
  | vector (v : Nat)
  | component (id : PolyID) (i : Nat)
deriving DecidableEq

abbrev Place (PolyID : Type) := Holder PolyID × Nat

namespace RefState

/-- The header address and the component `i` of a poly. -/
def componentAt (f : PolyFactory N PolyID (Component PolyID D) CB) (id : PolyID) (i : Nat) :
    Option (Nat × Component PolyID D) :=
  (f.entries.lookup id).bind fun entry =>
    (f.header entry.header).bind fun header =>
      (header.components i).map fun component => (entry.header, component)

def refsAt (s : RefState N PolyID D CB) : Holder PolyID → Option (List (Option PolyID))
  | .vector v => s.vectors[v]?
  | .component id i => (componentAt s.factory id i).map fun c => c.2.refs

def putRefs (s : RefState N PolyID D CB) (refs : List (Option PolyID)) :
    Holder PolyID → RefState N PolyID D CB
  | .vector v => { s with vectors := s.vectors.set v refs }
  | .component id i =>
    match componentAt s.factory id i with
    | some (h, c) => { s with factory := setComponent s.factory h i { c with refs := refs } }
    | none => s

def read (s : RefState N PolyID D CB) (p : Place PolyID) : Option (Option PolyID) :=
  (s.refsAt p.1).bind fun refs => refs[p.2]?

def write (s : RefState N PolyID D CB) (p : Place PolyID) (ref : Option PolyID) :
    Option (RefState N PolyID D CB) :=
  (s.refsAt p.1).map fun refs => s.putRefs (refs.set p.2 ref) p.1

def pushBack (s : RefState N PolyID D CB) (dst : Holder PolyID) (ref : Option PolyID) :
    Option (RefState N PolyID D CB) :=
  (s.refsAt dst).map fun refs => s.putRefs (refs ++ [ref]) dst

/-- `fetch_sub` unless the `Ref` is null. -/
def release (s : RefState N PolyID D CB) (ref : Option PolyID) : Option (RefState N PolyID D CB) :=
  match ref with
  | none => some s
  | some id => (fetchSub s.factory id).map fun f => { s with factory := f }

/-- `fetch_add` unless the `Ref` is null. -/
def retain (s : RefState N PolyID D CB) (ref : Option PolyID) : Option (RefState N PolyID D CB) :=
  match ref with
  | none => some s
  | some id => (fetchAdd s.factory id).map fun f => { s with factory := f }

/-- `push_back(Ref(weak_ref))` -/
def construct (s : RefState N PolyID D CB) (dst : Holder PolyID) (ref : Option PolyID) :
    Option (RefState N PolyID D CB) := do
  let s ← s.retain ref
  s.pushBack dst ref

/-- `push_back(std::move(src))` -/
def moveConstruct (s : RefState N PolyID D CB) (dst : Holder PolyID) (src : Place PolyID) :
    Option (RefState N PolyID D CB) := do
  let ref ← s.read src
  let s ← s.write src none
  s.pushBack dst ref

/-- `dst = std::move(src)` -/
def moveAssign (s : RefState N PolyID D CB) (dst src : Place PolyID) :
    Option (RefState N PolyID D CB) := do
  let old ← s.read dst
  let s ← s.release old
  let ref ← s.read src
  let s ← s.write dst ref
  s.write src none

/-- `push_back(src.Reference())` -/
def reference (s : RefState N PolyID D CB) (dst : Holder PolyID) (src : Place PolyID) :
    Option (RefState N PolyID D CB) := do
  let ref ← s.read src
  let s ← s.retain ref
  s.pushBack dst ref

/-- `pop_back()`, which destroys the last `Ref`. -/
def popBack (s : RefState N PolyID D CB) (src : Holder PolyID) :
    Option (RefState N PolyID D CB) := do
  let refs ← s.refsAt src
  let s ← s.release (← refs.getLast?)
  some (s.putRefs refs.dropLast src)

/-- `unordered_erase_it` (Util.h:70-75) -/
def unorderedEraseIt (s : RefState N PolyID D CB) (src : Holder PolyID) (it : Nat) :
    Option (RefState N PolyID D CB) := do
  let refs ← s.refsAt src
  let s ← s.moveAssign (src, it) (src, refs.length - 1)
  s.popBack src

/-- `push_back(GetPoly(id, initial_types))` -/
def getPolyRef (T : ComponentTypes D) (s : RefState N PolyID D CB) (dst : Holder PolyID)
    (id : PolyID) (initialTypes : TypeID N) (fresh : Fresh) : Option (RefState N PolyID D CB) := do
  let f ← getPoly T.components fresh s.factory id initialTypes
  pushBack { s with factory := f } dst (some id)

inductive Label (N : Nat) (PolyID CB : Type)
  | newVector
  | construct (dst : Holder PolyID) (weakRef : Option PolyID)
  | moveConstruct (dst : Holder PolyID) (src : Place PolyID)
  | moveAssign (dst src : Place PolyID)
  | reference (dst : Holder PolyID) (src : Place PolyID)
  | popBack (src : Holder PolyID)
  | unorderedEraseIt (src : Holder PolyID) (it : Nat)
  | getPoly (dst : Holder PolyID) (id : PolyID) (initialTypes : TypeID N) (fresh : Fresh)
  | setTypes (id : PolyID) (newTypeId : TypeID N) (fresh : Fresh)
  | addTypes (id : PolyID) (newTypes : TypeID N) (fresh : Fresh)
  | cleanup (order : List PolyID)
  | addCallback (types : TypeID N) (event : PolyEvent) (callback : CB)

/-- The operation names objects that exist: a `WeakRef` that is not null denotes an entry, as
its caller has to see to. -/
def Possible (s : RefState N PolyID D CB) : Label N PolyID CB → Prop
  | .newVector | .addCallback .. => True
  | .construct dst weakRef => (s.refsAt dst).isSome ∧ ∀ id ∈ weakRef, (s.factory.entries.lookup id).isSome
  | .moveConstruct dst src | .reference dst src => (s.refsAt dst).isSome ∧ (s.read src).isSome
  | .moveAssign dst src => (s.read dst).isSome ∧ (s.read src).isSome
  | .popBack src => ((s.refsAt src).bind List.getLast?).isSome
  | .unorderedEraseIt src it => (s.read (src, it)).isSome
  | .getPoly dst _ _ fresh => (s.refsAt dst).isSome ∧ IsFree s.factory fresh
  | .setTypes _ _ fresh | .addTypes _ _ fresh => IsFree s.factory fresh
  | .cleanup order => order.Perm s.factory.entries.keys

instance (s : RefState N PolyID D CB) (l : Label N PolyID CB) : Decidable (Possible s l) :=
  match l with
  | .newVector | .addCallback .. => isTrue trivial
  | .construct .. | .moveConstruct .. | .reference .. | .moveAssign .. | .getPoly .. =>
    inferInstanceAs (Decidable (_ ∧ _))
  | .popBack _ | .unorderedEraseIt .. => inferInstanceAs (Decidable (_ = _))
  | .setTypes _ _ fresh | .addTypes _ _ fresh => inferInstanceAs (Decidable (IsFree s.factory fresh))
  | .cleanup order => inferInstanceAs (Decidable (order.Perm s.factory.entries.keys))

/-- The operation; `none` when it follows a bad pointer or a count underflows. -/
def call (T : ComponentTypes D) (s : RefState N PolyID D CB) :
    Label N PolyID CB → Option (RefState N PolyID D CB)
  | .newVector => some { s with vectors := s.vectors ++ [[]] }
  | .construct dst weakRef => s.construct dst weakRef
  | .moveConstruct dst src => s.moveConstruct dst src
  | .moveAssign dst src => s.moveAssign dst src
  | .reference dst src => s.reference dst src
  | .popBack src => s.popBack src
  | .unorderedEraseIt src it => s.unorderedEraseIt src it
  | .getPoly dst id initialTypes fresh => getPolyRef T s dst id initialTypes fresh
  | .setTypes id newTypeId fresh =>
    (setTypesWith T.components (destructChecked T.components) fresh s.factory id newTypeId).map
      fun f => { s with factory := f }
  | .addTypes id newTypes fresh =>
    (addTypesWith T.components (destructChecked T.components) fresh s.factory id newTypes).map
      fun f => { s with factory := f }
  | .cleanup order =>
    (cleanupWith (destructChecked T.components) s.factory order).map fun f => { s with factory := f }
  | .addCallback types event callback =>
    some { s with factory := addCallback s.factory types event callback }

/-- All runs of a factory and the `Ref` values to its polys. -/
def refMachine (T : ComponentTypes D) :
    Library.Machine (Option (RefState N PolyID D CB)) (Label N PolyID CB) where
  init s := s = some {}
  step s l := s.bind fun s => if Possible s l then some (call T s l) else none

/-- The entries to which the `Ref` values in the components of a poly point. -/
def polyRefs (f : PolyFactory N PolyID (Component PolyID D) CB) (id : PolyID) : List PolyID :=
  (typeIndexes N).flatMap fun i => ((componentAt f id i).map fun c => c.2.refs.reduceOption).getD []

def heldRefs (f : PolyFactory N PolyID (Component PolyID D) CB) : List PolyID :=
  f.entries.keys.flatMap (polyRefs f)

/-- The entries to which the live `Ref` values that are not null point. -/
def liveRefs (s : RefState N PolyID D CB) : List PolyID :=
  s.vectors.flatten.reduceOption ++ heldRefs s.factory

end RefState
end CosmicArchitect.Util.PolyFactory
