import Mathlib.Algebra.Ring.Int.Defs
import Mathlib.Tactic.Common

/-!
# Integer vectors (Util/GodotOperators.cpp)
-/

namespace CosmicArchitect

/-- `godot::Vector3i`; the 32-bit components are integers that do not overflow. -/
structure Vector3i where
  x : Int
  y : Int
  z : Int
deriving DecidableEq, Repr

namespace Vector3i

instance : Add Vector3i := ⟨fun a b => ⟨a.x + b.x, a.y + b.y, a.z + b.z⟩⟩

/-- Arithmetic shift right of every component (Util/GodotOperators.cpp:5-8). -/
def shr (v : Vector3i) (n : Nat) : Vector3i := ⟨v.x >>> n, v.y >>> n, v.z >>> n⟩

/-- Shift left of every component (Util/GodotOperators.cpp:10-13). -/
def shl (v : Vector3i) (n : Nat) : Vector3i := ⟨v.x * 2 ^ n, v.y * 2 ^ n, v.z * 2 ^ n⟩

theorem ext_iff' {a b : Vector3i} : a = b ↔ a.x = b.x ∧ a.y = b.y ∧ a.z = b.z := by
  cases a
  cases b
  simp

@[simp] theorem add_x (a b : Vector3i) : (a + b).x = a.x + b.x := rfl
@[simp] theorem add_y (a b : Vector3i) : (a + b).y = a.y + b.y := rfl
@[simp] theorem add_z (a b : Vector3i) : (a + b).z = a.z + b.z := rfl

theorem shl_one (v : Vector3i) : v.shl 1 = ⟨v.x * 2, v.y * 2, v.z * 2⟩ := by
  simp [shl]

theorem shr_one (v : Vector3i) : v.shr 1 = ⟨v.x / 2, v.y / 2, v.z / 2⟩ := by
  simp [shr, Int.shiftRight_eq_div_pow]

end Vector3i
end CosmicArchitect
