import Mathlib.Logic.Basic

/-!
# The swap buffer (Util/PerThread.h)

One thread calls `Publish`, the other `Retrieve`. Each load and store of `m_ready` and each
swap is one step, and the steps of the two threads interleave.
-/

namespace CosmicArchitect.Util

structure SwapBuffer (T : Type) where
  value : T
  ready : Bool := false
deriving DecidableEq, Repr

namespace SwapBuffer
variable {T : Type}

/-- What a thread does next in a call of `Publish` or `Retrieve`. -/
inductive Place
  | load
  | swap
  | store
deriving DecidableEq, Repr

/- One step of a call that expects `m_ready` to be `expected`: the buffer, the variable of the
   caller and the place after it, `none` after the return. -/
def access (expected : Bool) (b : SwapBuffer T) (value : T) :
    Place → SwapBuffer T × T × Option Place
  | .load => (b, value, if b.ready = expected then some .swap else none)
  | .swap => ({ b with value := value }, b.value, some .store)
  | .store => ({ b with ready := !expected }, value, none)

/-- `Publish` (lines 41-54) -/
def publish : SwapBuffer T → T → Place → SwapBuffer T × T × Option Place := access false

/-- `Retrieve` (lines 57-70) -/
def retrieve : SwapBuffer T → T → Place → SwapBuffer T × T × Option Place := access true

/-- Behind its load, a thread has seen the value of `m_ready` that it expects. -/
def Seen (ready expected : Bool) (place : Option Place) : Prop :=
  place = some .swap ∨ place = some .store → ready = expected

/-- The flag says whose turn it is. -/
structure Turns (ready : Bool) (publisher retriever : Option Place) : Prop where
  publisher : Seen ready false publisher
  retriever : Seen ready true retriever

variable {ready expected : Bool} {publisher retriever : Option Place}

theorem seen_none : Seen ready expected none := by
  intro h
  rcases h with h | h <;> cases h

theorem seen_load : Seen ready expected (some .load) := by
  intro h
  rcases h with h | h <;> cases h

/-- The thread itself keeps what it has seen until it stores the flag. -/
theorem seen_access {b : SwapBuffer T} {value : T} {place : Place}
    (h : Seen b.ready expected (some place)) :
    Seen (access expected b value place).1.ready expected
      (access expected b value place).2.2 := by
  cases place with
  | load =>
    rw [access]
    split
    · next hready => exact fun _ => hready
    · exact seen_none
  | swap => exact fun _ => h (Or.inl rfl)
  | store => exact seen_none

theorem seen_other {b : SwapBuffer T} {value : T} {place : Place} {other : Option Place}
    (h : Seen b.ready expected (some place)) (hother : Seen b.ready (!expected) other) :
    Seen (access expected b value place).1.ready (!expected) other := by
  cases place with
  | load => exact hother
  | swap => exact hother
  | store => exact fun _ => rfl

theorem Turns.publish {b : SwapBuffer T} (value : T) {place : Place}
    (h : Turns b.ready (some place) retriever) :
    Turns (b.publish value place).1.ready (b.publish value place).2.2 retriever :=
  ⟨seen_access h.publisher, seen_other h.publisher h.retriever⟩

theorem Turns.retrieve {b : SwapBuffer T} (value : T) {place : Place}
    (h : Turns b.ready publisher (some place)) :
    Turns (b.retrieve value place).1.ready publisher (b.retrieve value place).2.2 :=
  ⟨seen_other h.retriever h.publisher, seen_access h.retriever⟩

/-- At most one of the threads is between its load and its store. -/
theorem Turns.exclusive (h : Turns ready publisher retriever)
    (hp : publisher = some .swap ∨ publisher = some .store)
    (hr : retriever = some .swap ∨ retriever = some .store) : False := by
  have hfalse := h.publisher hp
  rw [h.retriever hr] at hfalse
  cases hfalse

end SwapBuffer
end CosmicArchitect.Util
