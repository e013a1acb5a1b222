import Mathlib.Tactic.Common
import Mathlib.Algebra.Ring.Nat

/-!
# Byte readers and writers (Util/Serialize.h)

A record of the database is a string of bytes. `Reader` and `Writer` walk over it with a
byte position; `toData` is the object representation of an unsigned integer, lowest byte
first.
-/

namespace CosmicArchitect.Serialize

abbrev Bytes := List UInt8

/-- Object bytes of an unsigned integer of `size` bytes (`ToData`, Util.h:94-98). -/
def toData : Nat → Nat → Bytes
  | 0, _ => []
  | size + 1, n => UInt8.ofNat n :: toData size (n / 256)

/-- The unsigned integer with the given object bytes. -/
def ofData : Bytes → Nat
  | [] => 0
  | b :: bs => b.toNat + 256 * ofData bs

structure Reader where
  buffer : Bytes
  pos : Nat := 0
deriving DecidableEq, Repr

/- The bytes of the next object and the reader behind it (Serialize.h:16-25). The
   source takes `substr` and dereferences its first `size` bytes without a length check;
   here a short buffer yields fewer bytes. -/
def Reader.read (r : Reader) (size : Nat) : Bytes × Reader :=
  ((r.buffer.drop r.pos).take size, { r with pos := r.pos + size })

structure Writer where
  buffer : Bytes := []
  pos : Nat := 0
deriving DecidableEq, Repr

/-- Append the bytes of one object (Serialize.h:40-45). -/
def Writer.write (w : Writer) (data : Bytes) : Writer :=
  ⟨w.buffer ++ data, w.pos + data.length⟩

@[simp] theorem toData_length (size n : Nat) : (toData size n).length = size := by
  induction size generalizing n with
  | zero => rfl
  | succ size ih => simp [toData, ih]

theorem ofData_toData (size n : Nat) : ofData (toData size n) = n % 256 ^ size := by
  induction size generalizing n with
  | zero => simp [toData, ofData, Nat.mod_one]
  | succ size ih =>
    have hbyte : (UInt8.ofNat n).toNat = n % 256 := by simp
    simp only [toData, ofData, ih, hbyte]
    rw [Nat.pow_succ', Nat.mod_mul]

theorem Reader.read_append (before data after : Bytes) :
    (Reader.mk (before ++ (data ++ after)) before.length).read data.length =
      (data, ⟨before ++ (data ++ after), before.length + data.length⟩) := by
  simp [Reader.read]

theorem Writer.foldl_buffer {ι : Type} (f : Writer → ι → Writer)
    (hf : ∀ w i, ∃ rest, (f w i).buffer = w.buffer ++ rest) (l : List ι) :
    ∀ w : Writer, ∃ rest, (l.foldl f w).buffer = w.buffer ++ rest := by
  induction l with
  | nil => intro w; exact ⟨[], (List.append_nil _).symm⟩
  | cons i l ih =>
    intro w
    obtain ⟨rest, hrest⟩ := ih (f w i)
    obtain ⟨first, hfirst⟩ := hf w i
    exact ⟨first ++ rest, by rw [List.foldl_cons, hrest, hfirst, List.append_assoc]⟩

end CosmicArchitect.Serialize
