import Mathlib.Data.Nat.Digits.Defs

/-!
# The hash tables (lib/robin_hood/robin_hood.h, `detail::Table`)

All maps of the program (`NodeMap`, `PolyMap`, `ArchetypeMap`, `InfoMap`, the callback tables) are
instances of one table with open addressing. `mKeyVals` is a list of slots, `none` where no
node is constructed; `mInfo` a list of bytes, one for each slot, then the sentinel and seven bytes of
padding. Before the first allocation both point at the eight bytes of `mMask`.
-/

namespace CosmicArchitect.RobinHood

/-- Ways in which a call does not return: `throwOverflowError`, or an access the language does
not define. -/
inductive Failure
  | overflow
  | outOfBounds
  | rawNode
  | liveNode
deriving DecidableEq, Repr

inductive InsertionState
  | overflowError
  | keyFound
  | newNode
  | overwriteNode
deriving DecidableEq, Repr

def initialNumElements : Nat := 8
def initialInfoInc : Nat := 32

/-- `MaxLoadFactor100`, the default of every map of the program. -/
def maxLoadFactor100 : Nat := 80

structure Table (K V : Type) where
  hashMultiplier : BitVec 64 := 0xc4ceb9fe1a85ec53#64
  keyVals : List (Option (K × V)) := []
  info : List Nat := List.replicate 8 0
  numElements : Nat := 0
  mask : Nat := 0
  maxNumElementsAllowed : Nat := 0
  infoInc : Nat := initialInfoInc
  infoHashShift : Nat := 0
deriving DecidableEq, Repr

def calcMaxNumElementsAllowed (maxElements : Nat) : Nat :=
  if maxElements ≤ (2 ^ 64 - 1) / 100 then maxElements * maxLoadFactor100 / 100
  else maxElements / 100 * maxLoadFactor100

def calcNumElementsWithBuffer (numElements : Nat) : Nat :=
  numElements + min (calcMaxNumElementsAllowed numElements) 255

def calcNumBytesInfo (numElements : Nat) : Nat := numElements + 8

/-! ### Words of eight bytes -/

/-- `unaligned_load<uint64_t>` of little endian bytes. -/
def load64 (bytes : List Nat) : Nat := Nat.ofDigits 256 bytes

/-- The bytes of a word. -/
def store64 (val : Nat) : List Nat := (List.range 8).map fun i => val / 256 ^ i % 256

/-- `ROBIN_HOOD_COUNT_TRAILING_ZEROES`, with the width of the word. -/
def countTrailingZeroes : Nat → Nat → Nat
  | 0, _ => 0
  | width + 1, n => if n % 2 = 1 then 0 else countTrailingZeroes width (n / 2) + 1

/-- The loop of `try_increase_info` over the words from byte `i` on. -/
def halveInfo (numElementsWithBuffer : Nat) : Nat → Nat → List Nat → Except Failure (List Nat)
  | 0, _, _ => .error .outOfBounds
  | fuel + 1, i, info =>
    if i < numElementsWithBuffer then
      if info.length < i + 8 then .error .outOfBounds
      else
        let val := load64 ((info.drop i).take 8) >>> 1 &&& 0x7f7f7f7f7f7f7f7f
        halveInfo numElementsWithBuffer fuel (i + 8)
          (info.take i ++ store64 val ++ info.drop (i + 8))
    else .ok info

namespace Table
variable {K V : Type}

/-! ### Accesses -/

def infoAt (t : Table K V) (i : Nat) : Except Failure Nat :=
  match t.info[i]? with
  | some b => .ok b
  | none => .error .outOfBounds

def setInfo (t : Table K V) (i b : Nat) : Except Failure (Table K V) :=
  if i < t.info.length then .ok { t with info := t.info.set i b } else .error .outOfBounds

def nodeAt (t : Table K V) (i : Nat) : Except Failure (K × V) :=
  match t.keyVals[i]? with
  | some (some node) => .ok node
  | some none => .error .rawNode
  | none => .error .outOfBounds

/-- The node in front of index `i`. -/
def nodeBefore (t : Table K V) : Nat → Except Failure (K × V)
  | 0 => .error .outOfBounds
  | i + 1 => t.nodeAt i

/-- Placement new of a node. -/
def construct (t : Table K V) (i : Nat) (node : K × V) : Except Failure (Table K V) :=
  match t.keyVals[i]? with
  | some none => .ok { t with keyVals := t.keyVals.set i (some node) }
  | some (some _) => .error .liveNode
  | none => .error .outOfBounds

def assign (t : Table K V) (i : Nat) (node : K × V) : Except Failure (Table K V) :=
  match t.keyVals[i]? with
  | some (some _) => .ok { t with keyVals := t.keyVals.set i (some node) }
  | some none => .error .rawNode
  | none => .error .outOfBounds

/-- The destructor of a node. -/
def destruct (t : Table K V) (i : Nat) : Except Failure (Table K V) :=
  match t.keyVals[i]? with
  | some (some _) => .ok { t with keyVals := t.keyVals.set i none }
  | some none => .error .rawNode
  | none => .error .outOfBounds

/-- One more iteration than there are info bytes always ends a loop: it would read past the
last byte. -/
def fuel (t : Table K V) : Nat := t.info.length + 1

/-! ### Hashing -/

section
variable (hash : K → BitVec 64)

/-- The mixed hash of `keyToIdx`. -/
def mix (t : Table K V) (key : K) : BitVec 64 :=
  let h := hash key * t.hashMultiplier
  h ^^^ (h >>> 33)

/-- The index and the info that `keyToIdx` stores. -/
def keyToIdx (t : Table K V) (key : K) : Nat × Nat :=
  let h := (t.mix hash key).toNat
  (h >>> 5 &&& t.mask, t.infoInc + (h &&& 31) >>> t.infoHashShift)

end

/-! ### Loops over the info bytes -/

/-- A loop that calls `next` while the info and the byte at the index satisfy `cond`. -/
def nextWhile (t : Table K V) (cond : Nat → Nat → Bool) :
    Nat → Nat → Nat → Except Failure (Nat × Nat)
  | 0, _, _ => .error .outOfBounds
  | fuel + 1, info, idx => do
    let b ← t.infoAt idx
    if cond info b then nextWhile t cond fuel (info + t.infoInc) (idx + 1) else .ok (info, idx)

def nextWhileLess (t : Table K V) (info idx : Nat) : Except Failure (Nat × Nat) :=
  t.nextWhile (fun info b => decide (info < b)) t.fuel info idx

/-- The loop of `insert_move` that skips forward. -/
def nextWhileLessEq (t : Table K V) (info idx : Nat) : Except Failure (Nat × Nat) :=
  t.nextWhile (fun info b => decide (info ≤ b)) t.fuel info idx

/-- The loop that finds an empty spot. -/
def findEmpty (t : Table K V) (info idx : Nat) : Except Failure (Nat × Nat) :=
  t.nextWhile (fun _ b => b != 0) t.fuel info idx

section
variable [DecidableEq K]

/-- The loop of `insertKeyPrepareEmptySpot` over entries of equal info: the index of the key,
or where the loop stopped. -/
def nextWhileEqual (t : Table K V) (key : K) :
    Nat → Nat → Nat → Except Failure (Nat ⊕ Nat × Nat)
  | 0, _, _ => .error .outOfBounds
  | fuel + 1, info, idx => do
    let b ← t.infoAt idx
    if info = b then
      let node ← t.nodeAt idx
      if key = node.1 then .ok (.inl idx)
      else nextWhileEqual t key fuel (info + t.infoInc) (idx + 1)
    else .ok (.inr (info, idx))

/-- `info == mInfo[idx]` and the key of the node is the one sought. -/
def keyAt (t : Table K V) (key : K) (info idx : Nat) : Except Failure Bool := do
  let b ← t.infoAt idx
  if info = b then
    let node ← t.nodeAt idx
    .ok (decide (key = node.1))
  else .ok false

/-- The loop of `findIdx`, unrolled twice. -/
def findLoop (t : Table K V) (key : K) : Nat → Nat → Nat → Except Failure (Option Nat)
  | 0, _, _ => .error .outOfBounds
  | fuel + 1, info, idx => do
    if ← t.keyAt key info idx then return some idx
    if ← t.keyAt key (info + t.infoInc) (idx + 1) then return some (idx + 1)
    let b ← t.infoAt (idx + 2)
    if info + t.infoInc + t.infoInc ≤ b then
      findLoop t key fuel (info + t.infoInc + t.infoInc) (idx + 2)
    else return none

/-- The loop of `erase(key)`, up to the index of the key. -/
def eraseLoop (t : Table K V) (key : K) : Nat → Nat → Nat → Except Failure (Option Nat)
  | 0, _, _ => .error .outOfBounds
  | fuel + 1, info, idx => do
    if ← t.keyAt key info idx then return some idx
    let b ← t.infoAt (idx + 1)
    if info + t.infoInc ≤ b then eraseLoop t key fuel (info + t.infoInc) (idx + 1)
    else return none

end

/-! ### Moving nodes -/

/-- The first loop of `shiftUp`, from the index it was called with downwards. -/
def moveUp (insertionIdx : Nat) : Nat → Table K V → Except Failure (Table K V)
  | 0, _ => .error .outOfBounds
  | idx + 1, t =>
    if idx = insertionIdx then .ok t
    else do
      let node ← t.nodeBefore idx
      let t ← t.assign idx node
      moveUp insertionIdx idx t

/-- The second loop of `shiftUp`. -/
def raiseInfo (insertionIdx : Nat) : Nat → Table K V → Except Failure (Table K V)
  | 0, t => if 0 = insertionIdx then .ok t else .error .outOfBounds
  | idx + 1, t =>
    if idx + 1 = insertionIdx then .ok t
    else do
      let b ← t.infoAt idx
      let t ← t.setInfo (idx + 1) ((b + t.infoInc) % 256)
      let t := if (b + t.infoInc) % 256 + t.infoInc > 255 then { t with maxNumElementsAllowed := 0 }
        else t
      raiseInfo insertionIdx idx t

def shiftUp (t : Table K V) (startIdx insertionIdx : Nat) : Except Failure (Table K V) := do
  let node ← t.nodeBefore startIdx
  let t ← t.construct startIdx node
  let t ← moveUp insertionIdx startIdx t
  raiseInfo insertionIdx startIdx t

/-- The loop of `shiftDown` and what follows it. -/
def shiftDownLoop : Nat → Nat → Table K V → Except Failure (Table K V)
  | 0, _, _ => .error .outOfBounds
  | fuel + 1, idx, t => do
    let b ← t.infoAt (idx + 1)
    if b ≥ 2 * t.infoInc then
      let t ← t.setInfo idx ((b - t.infoInc) % 256)
      let node ← t.nodeAt (idx + 1)
      let t ← t.assign idx node
      shiftDownLoop fuel (idx + 1) t
    else
      let t ← t.setInfo idx 0
      t.destruct idx

def shiftDown (t : Table K V) (idx : Nat) : Except Failure (Table K V) := do
  let _ ← t.nodeAt idx
  shiftDownLoop t.fuel idx t

/-! ### Growing -/

def initData (t : Table K V) (maxElements : Nat) : Table K V :=
  let numElementsWithBuffer := calcNumElementsWithBuffer maxElements
  { t with
    numElements := 0
    mask := maxElements - 1
    maxNumElementsAllowed := calcMaxNumElementsAllowed maxElements
    keyVals := List.replicate numElementsWithBuffer none
    info := (List.replicate (calcNumBytesInfo numElementsWithBuffer) 0).set numElementsWithBuffer 1
    infoInc := initialInfoInc
    infoHashShift := 0 }

def tryIncreaseInfo (t : Table K V) : Except Failure (Bool × Table K V) :=
  if t.infoInc ≤ 2 then .ok (false, t)
  else do
    let numElementsWithBuffer := calcNumElementsWithBuffer (t.mask + 1)
    let info ← halveInfo numElementsWithBuffer t.fuel 0 t.info
    .ok (true, { t with
      infoInc := t.infoInc >>> 1
      infoHashShift := t.infoHashShift + 1
      info := info.set numElementsWithBuffer 1
      maxNumElementsAllowed := calcMaxNumElementsAllowed (t.mask + 1) })

/-- The end of `insert_move`: the node goes to the insertion index, which is the empty spot or
becomes free. -/
def placeNode (t : Table K V) (idx insertionIdx : Nat) (node : K × V) :
    Except Failure (Table K V) :=
  if idx = insertionIdx then t.construct insertionIdx node
  else do
    let t ← t.shiftUp idx insertionIdx
    t.assign insertionIdx node

def nextHashMultiplier (t : Table K V) : Table K V :=
  { t with hashMultiplier := t.hashMultiplier + 0xc4ceb9fe1a85ec54#64 }

section
variable (hash : K → BitVec 64)

/-- `insert_move` behind the check for room in the info bytes. -/
def insertNew (t : Table K V) (node : K × V) : Except Failure (Table K V) := do
  let (idx, info) := t.keyToIdx hash node.1
  let (info, idx) ← t.nextWhileLessEq info idx
  let insertionIdx := idx
  let insertionInfo := info % 256
  let t := if insertionInfo + t.infoInc > 255 then { t with maxNumElementsAllowed := 0 } else t
  let (_, idx) ← t.findEmpty info idx
  let t ← t.placeNode idx insertionIdx node
  let t ← t.setInfo insertionIdx insertionInfo
  .ok { t with numElements := t.numElements + 1 }

def insertMove (t : Table K V) (node : K × V) : Except Failure (Table K V) :=
  if t.maxNumElementsAllowed = 0 then do
    let (increased, t) ← t.tryIncreaseInfo
    if increased then t.insertNew hash node else .error .overflow
  else t.insertNew hash node

/-- The loop of `rehashPowerOfTwo` over indices of the old slots. -/
def moveNodes (old : Table K V) : List Nat → Table K V → Except Failure (Table K V)
  | [], t => .ok t
  | i :: is, t => do
    let b ← old.infoAt i
    if b ≠ 0 then
      let node ← old.nodeAt i
      let t ← t.insertMove hash node
      moveNodes old is t
    else moveNodes old is t

def rehashPowerOfTwo (t : Table K V) (numBuckets : Nat) : Except Failure (Table K V) :=
  let oldMaxElementsWithBuffer := calcNumElementsWithBuffer (t.mask + 1)
  if oldMaxElementsWithBuffer > 1 then
    moveNodes hash t (List.range oldMaxElementsWithBuffer) (t.initData numBuckets)
  else .ok (t.initData numBuckets)

/-- The end of `increase_size`: the same size under the next hash, or twice the size. -/
def resize (t : Table K V) : Except Failure (Bool × Table K V) := do
  if t.numElements * 2 < calcMaxNumElementsAllowed (t.mask + 1) then
    let t ← t.nextHashMultiplier.rehashPowerOfTwo hash (t.mask + 1)
    return (true, t)
  else
    let t ← t.rehashPowerOfTwo hash ((t.mask + 1) * 2)
    return (true, t)

def increaseSize (t : Table K V) : Except Failure (Bool × Table K V) :=
  if t.mask = 0 then .ok (true, t.initData initialNumElements)
  else if t.numElements < calcMaxNumElementsAllowed (t.mask + 1) then do
    let (increased, t) ← t.tryIncreaseInfo
    if increased then .ok (true, t) else t.resize hash
  else t.resize hash

section
variable [DecidableEq K]

/-- The end of `insertKeyPrepareEmptySpot`: the insertion index becomes free. -/
def prepareAt (t : Table K V) (info idx : Nat) : Except Failure (Table K V × Nat × InsertionState) := do
  let insertionIdx := idx
  let insertionInfo := info
  let t := if insertionInfo + t.infoInc > 255 then { t with maxNumElementsAllowed := 0 } else t
  let (_, idx) ← t.findEmpty info idx
  let t ← if idx ≠ insertionIdx then t.shiftUp idx insertionIdx else .ok t
  let t ← t.setInfo insertionIdx (insertionInfo % 256)
  .ok ({ t with numElements := t.numElements + 1 }, insertionIdx,
    if idx = insertionIdx then .newNode else .overwriteNode)

/-- `insertKeyPrepareEmptySpot` with the attempts left. -/
def prepareEmptySpot (key : K) : Nat → Table K V → Except Failure (Table K V × Nat × InsertionState)
  | 0, t => .ok (t, 0, .overflowError)
  | attempts + 1, t => do
    let (idx, info) := t.keyToIdx hash key
    let (info, idx) ← t.nextWhileLess info idx
    match ← t.nextWhileEqual key t.fuel info idx with
    | .inl idx => .ok (t, idx, .keyFound)
    | .inr (info, idx) =>
      if t.numElements ≥ t.maxNumElementsAllowed then
        let (increased, t) ← t.increaseSize hash
        if increased then prepareEmptySpot key attempts t else .ok (t, 0, .overflowError)
      else t.prepareAt info idx

def insertKeyPrepareEmptySpot (t : Table K V) (key : K) :
    Except Failure (Table K V × Nat × InsertionState) :=
  prepareEmptySpot hash key 256 t

/-! ### The map -/

/-- The switch over the insertion state that `operator[]`, `emplace`, `try_emplace` and
`insert_or_assign` share: the index of the entry and whether it is new. -/
def emplaceWith (t : Table K V) (key : K) (value : V)
    (found : Table K V → Nat → Except Failure (Table K V)) :
    Except Failure (Table K V × Nat × Bool) := do
  let (t, idx, state) ← t.insertKeyPrepareEmptySpot hash key
  match state with
  | .keyFound => do
    let t ← found t idx
    .ok (t, idx, false)
  | .newNode => do
    let t ← t.construct idx (key, value)
    .ok (t, idx, true)
  | .overwriteNode => do
    let t ← t.assign idx (key, value)
    .ok (t, idx, true)
  | .overflowError => .error .overflow

def emplace (t : Table K V) (key : K) (value : V) : Except Failure (Table K V × Nat × Bool) :=
  t.emplaceWith hash key value fun t _ => .ok t

def tryEmplace (t : Table K V) (key : K) (value : V) : Except Failure (Table K V × Nat × Bool) :=
  t.emplaceWith hash key value fun t _ => .ok t

def insertOrAssign (t : Table K V) (key : K) (value : V) :
    Except Failure (Table K V × Nat × Bool) :=
  t.emplaceWith hash key value fun t idx => t.assign idx (key, value)

/-- `operator[]`: the index of the entry, which a default value was made for if it is new. -/
def subscript [Inhabited V] (t : Table K V) (key : K) : Except Failure (Table K V × Nat) := do
  let (t, idx, _) ← t.emplaceWith hash key default fun t _ => .ok t
  .ok (t, idx)

/-- The index of `end()`. -/
def endIdx (t : Table K V) : Nat :=
  if t.mask = 0 then 0 else calcNumElementsWithBuffer (t.mask + 1)

def findIdx (t : Table K V) (key : K) : Except Failure Nat := do
  let (idx, info) := t.keyToIdx hash key
  match ← t.findLoop key t.fuel info idx with
  | some idx => .ok idx
  | none => .ok t.endIdx

def find (t : Table K V) (key : K) : Except Failure Nat := t.findIdx hash key

def count (t : Table K V) (key : K) : Except Failure Nat := do
  let idx ← t.findIdx hash key
  .ok (if idx ≠ t.endIdx then 1 else 0)

/-- `at`: `none` for the exception that the key is not there. -/
def atKey (t : Table K V) (key : K) : Except Failure (Option V) := do
  let idx ← t.findIdx hash key
  if idx = t.endIdx then .ok none
  else
    let node ← t.nodeAt idx
    .ok (some node.2)

/-- `erase(key)`: how many entries were removed. -/
def eraseKey (t : Table K V) (key : K) : Except Failure (Table K V × Nat) := do
  let (idx, info) := t.keyToIdx hash key
  match ← t.eraseLoop key t.fuel info idx with
  | some idx => do
    let t ← t.shiftDown idx
    .ok ({ t with numElements := t.numElements - 1 }, 1)
  | none => .ok (t, 0)

end

end

/-! ### Iterators -/

/-- `fastForward`: the next index with a nonzero info byte. -/
def fastForward (t : Table K V) : Nat → Nat → Except Failure Nat
  | 0, _ => .error .outOfBounds
  | fuel + 1, idx =>
    if t.info.length < idx + 8 then .error .outOfBounds
    else
      let n := load64 ((t.info.drop idx).take 8)
      if n = 0 then fastForward t fuel (idx + 8) else .ok (idx + countTrailingZeroes 64 n / 8)

def begin (t : Table K V) : Except Failure Nat :=
  if t.numElements = 0 then .ok t.endIdx else t.fastForward t.fuel 0

/-- `operator++` of an iterator. -/
def next (t : Table K V) (idx : Nat) : Except Failure Nat := t.fastForward t.fuel (idx + 1)

/-- `erase(pos)`: the iterator of the next entry. -/
def eraseIdx (t : Table K V) (idx : Nat) : Except Failure (Table K V × Nat) := do
  let t ← t.shiftDown idx
  let t := { t with numElements := t.numElements - 1 }
  let b ← t.infoAt idx
  if b ≠ 0 then .ok (t, idx)
  else do
    let idx ← t.next idx
    .ok (t, idx)

/-- The loop of the `Destroyer` over the slots. -/
def destroyNodes : Nat → Table K V → Except Failure (Table K V)
  | 0, t => .ok t
  | idx + 1, t => do
    let t ← destroyNodes idx t
    let b ← t.infoAt idx
    if b ≠ 0 then t.destruct idx else .ok t

def clear (t : Table K V) : Except Failure (Table K V) :=
  if t.numElements = 0 then .ok t
  else do
    let numElementsWithBuffer := calcNumElementsWithBuffer (t.mask + 1)
    let t ← destroyNodes numElementsWithBuffer { t with numElements := 0 }
    .ok { t with
      info := (List.replicate (calcNumBytesInfo numElementsWithBuffer) 0).set
        numElementsWithBuffer 1
      infoInc := initialInfoInc
      infoHashShift := 0 }

end Table
end CosmicArchitect.RobinHood
