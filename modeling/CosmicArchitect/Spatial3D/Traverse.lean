import CosmicArchitect.Util.GodotOperators
import Mathlib.Data.List.Nodup
import Mathlib.Data.Rat.Floor
import Mathlib.Tactic.Linarith
import Mathlib.Tactic.Ring
import Mathlib.Tactic.NormNum

/-!
# Enumerating coordinates (Spatial3D/SpatialTraverse.h)

The coordinates a callback is called for, in order: of a cuboid region and of a sphere. The
sphere is computed exactly, its positions are rational.
-/

namespace CosmicArchitect

/-- `godot::Vector3` in exact arithmetic. -/
structure Vector3 where
  x : ℚ
  y : ℚ
  z : ℚ
deriving DecidableEq, Repr

namespace Vector3

/-- The conversion of a floating point number to an integer. -/
def trunc (q : ℚ) : ℤ := if 0 ≤ q then ⌊q⌋ else ⌈q⌉

def toVector3i (v : Vector3) : Vector3i := ⟨trunc v.x, trunc v.y, trunc v.z⟩

def ofVector3i (v : Vector3i) : Vector3 := ⟨v.x, v.y, v.z⟩

instance : Add Vector3 := ⟨fun a b => ⟨a.x + b.x, a.y + b.y, a.z + b.z⟩⟩

instance : Sub Vector3 := ⟨fun a b => ⟨a.x - b.x, a.y - b.y, a.z - b.z⟩⟩

def distanceSquaredTo (a b : Vector3) : ℚ := (b.x - a.x) ^ 2 + (b.y - a.y) ^ 2 + (b.z - a.z) ^ 2

end Vector3

namespace Spatial3D

/-! ### A region -/

/-- One `for` loop without an initialisation: its body and its increment change the coordinate
they share with the other loops. `none` when the turns do not reach its end. -/
def loop (more : Vector3i → Prop) [DecidablePred more] (next : Vector3i → Vector3i)
    (body : Vector3i → Option (List Vector3i × Vector3i)) :
    Nat → Vector3i → Option (List Vector3i × Vector3i)
  | 0, _ => none
  | turns + 1, start =>
    if more start then
      (body start).bind fun once =>
        (loop more next body turns (next once.2)).map fun rest => (once.1 ++ rest.1, rest.2)
    else some ([], start)

/-- The loops over `start` (lines 37-42), from the innermost. -/
def loopZ (finish start : Vector3i) : Option (List Vector3i × Vector3i) :=
  loop (·.z < finish.z) (fun s => { s with z := s.z + 1 }) (fun s => some ([s], s))
    ((finish.z - start.z).toNat + 1) start

def loopY (finish start : Vector3i) : Option (List Vector3i × Vector3i) :=
  loop (·.y < finish.y) (fun s => { s with y := s.y + 1 }) (loopZ finish)
    ((finish.y - start.y).toNat + 1) start

def loopX (finish start : Vector3i) : Option (List Vector3i × Vector3i) :=
  loop (·.x < finish.x) (fun s => { s with x := s.x + 1 }) (loopY finish)
    ((finish.x - start.x).toNat + 1) start

/-- `ForEachCoordInRegion` (lines 31-43) -/
def forEachCoordInRegion (start finish : Vector3i) : Option (List Vector3i) :=
  let lower : Vector3i := ⟨if finish.x < start.x then finish.x else start.x,
    if finish.y < start.y then finish.y else start.y, if finish.z < start.z then finish.z else start.z⟩
  let upper : Vector3i := ⟨if finish.x < start.x then start.x else finish.x,
    if finish.y < start.y then start.y else finish.y, if finish.z < start.z then start.z else finish.z⟩
  (loopX upper lower).map Prod.fst

/-- The coordinates `count` steps along z. -/
def line (start : Vector3i) (count : Nat) : List Vector3i :=
  (List.range count).map fun i : Nat => { start with z := start.z + i }

theorem mem_line {start c : Vector3i} {count : Nat} :
    c ∈ line start count ↔ c.x = start.x ∧ c.y = start.y ∧ start.z ≤ c.z ∧ c.z < start.z + count := by
  rw [line, List.mem_map]
  constructor
  · rintro ⟨i, hi, rfl⟩
    rw [List.mem_range] at hi
    refine ⟨rfl, rfl, ?_, ?_⟩ <;> simp only <;> omega
  · rintro ⟨hx, hy, hle, hlt⟩
    refine ⟨(c.z - start.z).toNat, List.mem_range.mpr (by omega), ?_⟩
    rw [Vector3i.ext_iff']
    refine ⟨hx.symm, hy.symm, ?_⟩
    simp only
    omega

theorem line_nodup (start : Vector3i) (count : Nat) : (line start count).Nodup := by
  refine List.Nodup.map ?_ List.nodup_range
  intro i j h
  have hz := congrArg Vector3i.z h
  simp only at hz
  omega

theorem loop_done {more : Vector3i → Prop} [DecidablePred more] {next : Vector3i → Vector3i}
    {body : Vector3i → Option (List Vector3i × Vector3i)} {start : Vector3i} (h : ¬more start)
    (turns : Nat) : loop more next body (turns + 1) start = some ([], start) := if_neg h

theorem loopZ_eq (finish start : Vector3i) (hle : start.z ≤ finish.z) :
    loopZ finish start =
      some (line start (finish.z - start.z).toNat, { start with z := finish.z }) := by
  obtain ⟨count, hcount⟩ : ∃ count, count = (finish.z - start.z).toNat := ⟨_, rfl⟩
  rw [loopZ, ← hcount]
  induction count generalizing start with
  | zero =>
    have hz : start.z = finish.z := by omega
    rw [loop_done (by omega), ← hz]
    rfl
  | succ count ih =>
    rw [loop, if_pos (by omega), Option.bind_some,
      ih { start with z := start.z + 1 } (by simp only; omega) (by simp only; omega)]
    have hline : start :: line { start with z := start.z + 1 } count = line start (count + 1) := by
      rw [line, line, List.range_succ_eq_map, List.map_cons, List.map_map]
      refine List.cons_eq_cons.mpr ⟨by simp, List.map_congr_left fun i _ => ?_⟩
      simp only [Function.comp_apply, Nat.succ_eq_add_one, Vector3i.mk.injEq, true_and]
      omega
    simp only [Option.map_some, List.singleton_append, hline]

/-- With the innermost loop at its end the two loops around it only run out. -/
theorem loopY_done (finish start : Vector3i) (hle : start.y ≤ finish.y) (hz : start.z = finish.z) :
    loopY finish start = some ([], { start with y := finish.y }) := by
  obtain ⟨count, hcount⟩ : ∃ count, count = (finish.y - start.y).toNat := ⟨_, rfl⟩
  rw [loopY, ← hcount]
  induction count generalizing start with
  | zero =>
    have hy : start.y = finish.y := by omega
    rw [loop_done (by omega), ← hy]
  | succ count ih =>
    have hbody : loopZ finish start = some ([], start) := by
      rw [loopZ_eq finish start (by omega), hz, Int.sub_self, ← hz]
      rfl
    rw [loop, if_pos (by omega), hbody, Option.bind_some,
      ih { start with y := start.y + 1 } (by simp only; omega) hz (by simp only; omega)]
    rfl

theorem loopX_done (finish start : Vector3i) (hle : start.x ≤ finish.x) (hy : start.y = finish.y) :
    (loopX finish start).map Prod.fst = some [] := by
  obtain ⟨count, hcount⟩ : ∃ count, count = (finish.x - start.x).toNat := ⟨_, rfl⟩
  rw [loopX, ← hcount]
  induction count generalizing start with
  | zero =>
    rw [loop_done (by omega)]
    rfl
  | succ count ih =>
    have hbody : loopY finish start = some ([], start) := by
      rw [loopY, hy, Int.sub_self]
      exact loop_done (by omega) _
    have hrest := ih { start with x := start.x + 1 } (by simp only; omega) hy (by simp only; omega)
    obtain ⟨rest, hloop, hnil⟩ := Option.map_eq_some_iff.mp hrest
    rw [loop, if_pos (by omega), hbody, Option.bind_some, hloop]
    simp only [Option.map_some, List.nil_append, hnil]

/-- Only the first line along z is enumerated: the inner loops find the end they left. -/
theorem loopX_eq (finish start : Vector3i) (hy : start.y ≤ finish.y) (hz : start.z ≤ finish.z) :
    (loopX finish start).map Prod.fst =
      some (if start.x < finish.x ∧ start.y < finish.y then
        line start (finish.z - start.z).toNat else []) := by
  by_cases hltx : start.x < finish.x
  · have hbody : loopY finish start = some (if start.y < finish.y then
        (line start (finish.z - start.z).toNat, { start with y := finish.y, z := finish.z })
        else ([], start)) := by
      by_cases hlty : start.y < finish.y
      · obtain ⟨count, hcount⟩ : ∃ count, (finish.y - start.y).toNat = count + 1 :=
          ⟨(finish.y - start.y).toNat - 1, by omega⟩
        have hrest := loopY_done finish { start with y := start.y + 1, z := finish.z }
          (by simp only; omega) rfl
        have hturns : (finish.y - (start.y + 1)).toNat + 1 = count + 1 := by omega
        rw [loopY, hturns] at hrest
        rw [if_pos hlty, loopY, hcount, loop, if_pos hlty, loopZ_eq finish start hz,
          Option.bind_some, hrest]
        simp only [Option.map_some, List.append_nil]
      · rw [if_neg hlty, loopY]
        exact loop_done hlty _
    obtain ⟨count, hcount⟩ : ∃ count, (finish.x - start.x).toNat = count + 1 :=
      ⟨(finish.x - start.x).toNat - 1, by omega⟩
    obtain ⟨after, hafter⟩ : ∃ after : Vector3i, after =
        (if start.y < finish.y then { start with y := finish.y, z := finish.z } else start) := ⟨_, rfl⟩
    have hafterx : after.x = start.x := by rw [hafter]; split <;> rfl
    have haftery : after.y = finish.y := by
      rw [hafter]
      split
      next => rfl
      next => omega
    have hrest := loopX_done finish { after with x := after.x + 1 } (by simp only; omega) haftery
    have hturns : (finish.x - (after.x + 1)).toNat + 1 = count + 1 := by omega
    rw [loopX, hturns] at hrest
    obtain ⟨rest, hloop, hnil⟩ := Option.map_eq_some_iff.mp hrest
    rw [loopX, hcount, loop, if_pos hltx, hbody, Option.bind_some]
    by_cases hlty : start.y < finish.y
    · rw [if_pos hlty] at hafter ⊢
      rw [← hafter, hloop, if_pos ⟨hltx, hlty⟩]
      simp only [Option.map_some, hnil, List.append_nil]
    · rw [if_neg hlty] at hafter ⊢
      rw [hafter] at hloop
      rw [hloop, if_neg fun h => hlty h.2]
      simp only [Option.map_some, hnil, List.append_nil]
  · rw [loopX, loop_done hltx, if_neg fun h => hltx h.1]
    rfl

/-- The callback is called once for each coordinate of the half-open box and for no other. -/
def EnumeratesRegion (start finish : Vector3i) : Prop :=
  ∃ calls, forEachCoordInRegion start finish = some calls ∧ calls.Nodup ∧
    ∀ c : Vector3i, c ∈ calls ↔
      (min start.x finish.x ≤ c.x ∧ c.x < max start.x finish.x) ∧
      (min start.y finish.y ≤ c.y ∧ c.y < max start.y finish.y) ∧
      (min start.z finish.z ≤ c.z ∧ c.z < max start.z finish.z)

theorem forEachCoordInRegion_eq (start finish : Vector3i) :
    forEachCoordInRegion start finish = some (
      if start.x ≠ finish.x ∧ start.y ≠ finish.y then
        line ⟨min start.x finish.x, min start.y finish.y, min start.z finish.z⟩
          (max start.z finish.z - min start.z finish.z).toNat
      else []) := by
  have hmin : ∀ a b : ℤ, (if b < a then b else a) = min a b := by
    intro a b
    split <;> omega
  have hmax : ∀ a b : ℤ, (if b < a then a else b) = max a b := by
    intro a b
    split <;> omega
  have hne : ∀ a b : ℤ, min a b < max a b ↔ a ≠ b := by
    intro a b
    omega
  simp only [forEachCoordInRegion, hmin, hmax]
  rw [loopX_eq _ _ (by simp only; omega) (by simp only; omega)]
  simp only [hne]

/-- A region is enumerated exactly when it is empty or a line along z. -/
theorem enumeratesRegion_iff (start finish : Vector3i) :
    EnumeratesRegion start finish ↔
      start.x = finish.x ∨ start.y = finish.y ∨ start.z = finish.z ∨
      ((start.x - finish.x).natAbs = 1 ∧ (start.y - finish.y).natAbs = 1) := by
  rw [EnumeratesRegion, forEachCoordInRegion_eq]
  constructor
  · rintro ⟨calls, hcalls, -, hmem⟩
    obtain rfl := Option.some.inj hcalls
    by_contra hnot
    simp only [not_or] at hnot
    obtain ⟨hx, hy, hz, hline⟩ := hnot
    simp only [if_pos (And.intro hx hy), mem_line] at hmem
    -- the corner behind the line in x or in y is not enumerated
    have hcorner := (hmem ⟨max start.x finish.x - 1, max start.y finish.y - 1,
      min start.z finish.z⟩).mpr (by simp only; omega)
    simp only at hcorner
    omega
  · intro h
    refine ⟨_, rfl, ?_, fun c => ?_⟩
    · split
      · exact line_nodup _ _
      · exact List.nodup_nil
    · split
      next hxy =>
        rw [mem_line]
        simp only
        omega
      next hxy =>
        refine ⟨fun hmem => absurd hmem List.not_mem_nil, fun hbox => ?_⟩
        omega

/-- Of a box of two by one by one the second coordinate is left out. -/
theorem region_incomplete :
    forEachCoordInRegion ⟨0, 0, 0⟩ ⟨2, 1, 1⟩ = some [⟨0, 0, 0⟩] ∧
    ¬EnumeratesRegion ⟨0, 0, 0⟩ ⟨2, 1, 1⟩ := by
  have hcalls : forEachCoordInRegion ⟨0, 0, 0⟩ ⟨2, 1, 1⟩ = some [⟨0, 0, 0⟩] := by decide
  refine ⟨hcalls, ?_⟩
  rintro ⟨calls, heq, -, hmem⟩
  obtain rfl := Option.some.inj (hcalls.symm.trans heq)
  exact absurd ((hmem ⟨1, 0, 0⟩).mpr (by decide)) (by decide)

/-! ### A sphere -/

/-- The values of `it` in `for (it = start; it < end; it++)`. -/
def counted (start finish : ℤ) : List ℤ :=
  (List.range (finish - start).toNat).map fun i : Nat => start + i

/-- `ForEachCoordInSphere` (lines 47-68) -/
def forEachCoordInSphere (pos : Vector3) (radius : Nat) : List Vector3i :=
  let reach := Vector3.ofVector3i ⟨radius, radius, radius⟩
  let start := (pos - reach).toVector3i
  let finish := (pos + reach).toVector3i
  let pos := pos - ⟨1 / 2, 1 / 2, 1 / 2⟩
  let radiusSquared : ℚ := radius * radius
  (counted start.x finish.x).flatMap fun x =>
    (counted start.y finish.y).flatMap fun y =>
      ((counted start.z finish.z).map fun z : ℤ => (⟨x, y, z⟩ : Vector3i)).filter fun it =>
        pos.distanceSquaredTo (.ofVector3i it) < radiusSquared

/-- The square of the distance of a cell's centre from a position. -/
def centreDistanceSquared (c : Vector3i) (pos : Vector3) : ℚ :=
  (c.x + 1 / 2 - pos.x) ^ 2 + (c.y + 1 / 2 - pos.y) ^ 2 + (c.z + 1 / 2 - pos.z) ^ 2

theorem mem_counted {start finish n : ℤ} : n ∈ counted start finish ↔ start ≤ n ∧ n < finish := by
  rw [counted, List.mem_map]
  constructor
  · rintro ⟨i, hi, rfl⟩
    rw [List.mem_range] at hi
    omega
  · rintro ⟨hle, hlt⟩
    exact ⟨(n - start).toNat, List.mem_range.mpr (by omega), by omega⟩

theorem counted_nodup (start finish : ℤ) : (counted start finish).Nodup := by
  refine List.Nodup.map ?_ List.nodup_range
  intro i j h
  simp only at h
  omega

/-- The bounds of the loop over one axis. -/
def InBounds (a : ℚ) (r : Nat) (n : ℤ) : Prop :=
  Vector3.trunc (a - r) ≤ n ∧ n < Vector3.trunc (a + r)

theorem mem_forEachCoordInSphere {pos : Vector3} {r : Nat} {c : Vector3i} :
    c ∈ forEachCoordInSphere pos r ↔
      InBounds pos.x r c.x ∧ InBounds pos.y r c.y ∧ InBounds pos.z r c.z ∧
      centreDistanceSquared c pos < r ^ 2 := by
  have hshift : ∀ n : ℤ, ∀ q : ℚ, (n : ℚ) - (q - 1 / 2) = n + 1 / 2 - q := fun n q => by ring
  have hdist : ∀ it : Vector3i, (pos - ⟨1 / 2, 1 / 2, 1 / 2⟩).distanceSquaredTo (.ofVector3i it) =
      centreDistanceSquared it pos := by
    intro it
    show ((it.x : ℚ) - (pos.x - 1 / 2)) ^ 2 + ((it.y : ℚ) - (pos.y - 1 / 2)) ^ 2 +
      ((it.z : ℚ) - (pos.z - 1 / 2)) ^ 2 = _
    rw [hshift, hshift, hshift]
    rfl
  simp only [forEachCoordInSphere, List.mem_flatMap, List.mem_filter, List.mem_map, mem_counted,
    decide_eq_true_eq, hdist, ← pow_two]
  constructor
  · rintro ⟨x, hx, y, hy, ⟨z, hz, rfl⟩, hlt⟩
    exact ⟨hx, hy, hz, hlt⟩
  · rintro ⟨hx, hy, hz, hlt⟩
    exact ⟨c.x, hx, c.y, hy, ⟨c.z, hz, rfl⟩, hlt⟩

theorem forEachCoordInSphere_nodup (pos : Vector3) (r : Nat) :
    (forEachCoordInSphere pos r).Nodup := by
  -- the coordinates of different turns of an outer loop differ in its axis
  refine List.nodup_flatMap.mpr ⟨fun x _ => List.nodup_flatMap.mpr ⟨fun y _ => ?_, ?_⟩, ?_⟩
  · refine List.Nodup.filter _ (List.Nodup.map ?_ (counted_nodup _ _))
    intro z z' h
    exact congrArg Vector3i.z h
  · refine (counted_nodup _ _).imp fun hne c hc hc' => hne ?_
    simp only [List.mem_filter, List.mem_map] at hc hc'
    obtain ⟨⟨_, _, rfl⟩, _⟩ := hc
    obtain ⟨⟨_, _, heq⟩, _⟩ := hc'
    exact (congrArg Vector3i.y heq).symm
  · refine (counted_nodup _ _).imp fun hne c hc hc' => hne ?_
    simp only [List.mem_flatMap, List.mem_filter, List.mem_map] at hc hc'
    obtain ⟨_, _, ⟨_, _, rfl⟩, _⟩ := hc
    obtain ⟨_, _, ⟨_, _, heq⟩, _⟩ := hc'
    exact (congrArg Vector3i.x heq).symm

/-- The offset of a coordinate from the centre of its cell. -/
def offCentre (q : ℚ) : ℚ := Int.fract q - 1 / 2

theorem offCentre_le (q : ℚ) (n : ℤ) : offCentre q ^ 2 ≤ (n + 1 / 2 - q) ^ 2 := by
  have hfloor : q = ⌊q⌋ + Int.fract q := (Int.floor_add_fract q).symm
  have hpos := Int.fract_nonneg q
  have hlt := Int.fract_lt_one q
  obtain ⟨m, hm⟩ : ∃ m : ℤ, n = ⌊q⌋ + m := ⟨n - ⌊q⌋, by omega⟩
  have hside : (n : ℚ) + 1 / 2 - q = m + 1 / 2 - Int.fract q := by
    rw [hm]
    push_cast
    linarith
  rw [hside, offCentre]
  -- The difference of the squares is a product of two factors of the same sign.
  have hsub : ((m : ℚ) + 1 / 2 - Int.fract q) ^ 2 - (Int.fract q - 1 / 2) ^ 2 =
      (m + 1 - 2 * Int.fract q) * m := by ring
  have hfactors : 0 ≤ ((m : ℚ) + 1 - 2 * Int.fract q) * m := by
    rcases lt_trichotomy m 0 with hneg | hzero | hone
    · have hm1 : (m : ℚ) ≤ -1 := by exact_mod_cast (by omega : m ≤ -1)
      exact mul_nonneg_of_nonpos_of_nonpos (by linarith) (by linarith)
    · rw [hzero, Int.cast_zero, mul_zero]
    · have hm1 : (1 : ℚ) ≤ m := by exact_mod_cast hone
      exact mul_nonneg (by linarith) (by linarith)
  linarith

theorem offCentre_eq (q : ℚ) : ((⌊q⌋ : ℤ) + 1 / 2 - q) ^ 2 = offCentre q ^ 2 := by
  have hfloor := Int.floor_add_fract q
  rw [offCentre]
  have hside : ((⌊q⌋ : ℤ) : ℚ) + 1 / 2 - q = -(Int.fract q - 1 / 2) := by linarith
  rw [hside, neg_sq]

/-- On the axis with `a` no cell outside the bounds has its centre in the sphere. The first
coordinate left out behind the bounds lies `r + 1/2` less the fraction of `a` away when `a + r` is
not negative, the last one in front of them `r + 1/2` less the fraction of `-a` when `a - r` is
negative; otherwise both lie farther away than `r`. -/
def AxisEnclosed (a b c : ℚ) (r : Nat) : Prop :=
  (a + r < 0 ∨ (r : ℚ) ^ 2 ≤ (r + 1 / 2 - Int.fract a) ^ 2 + offCentre b ^ 2 + offCentre c ^ 2) ∧
  (r ≤ a ∨ (r : ℚ) ^ 2 ≤ (r + 1 / 2 - Int.fract (-a)) ^ 2 + offCentre b ^ 2 + offCentre c ^ 2)

theorem trunc_of_nonneg {q : ℚ} (h : 0 ≤ q) : Vector3.trunc q = ⌊q⌋ := if_pos h

theorem trunc_of_neg {q : ℚ} (h : q < 0) : Vector3.trunc q = ⌈q⌉ := if_neg (not_le.mpr h)

/-- The ceiling and the fraction of the opposite. -/
theorem ceil_sub_self (a : ℚ) : (⌈a⌉ : ℚ) - a = Int.fract (-a) := by
  rw [Int.fract, Int.floor_neg]
  push_cast
  ring

theorem upper_far {a : ℚ} {r : Nat} {n : ℤ} (hn : Vector3.trunc (a + r) ≤ n) :
    (a + r < 0 ∧ (r : ℚ) < n + 1 / 2 - a) ∨
    (0 ≤ a + r ∧ (r : ℚ) + 1 / 2 - Int.fract a ≤ n + 1 / 2 - a) := by
  rcases lt_or_ge (a + r) 0 with hneg | hpos
  · rw [trunc_of_neg hneg] at hn
    have hceil : a + r ≤ (n : ℚ) := Int.ceil_le.mp hn
    exact Or.inl ⟨hneg, by linarith⟩
  · rw [trunc_of_nonneg hpos, Int.floor_add_natCast] at hn
    have hfloor := Int.floor_add_fract a
    have hcast : ((⌊a⌋ : ℤ) : ℚ) + r ≤ n := by exact_mod_cast hn
    exact Or.inr ⟨hpos, by linarith⟩

theorem lower_far {a : ℚ} {r : Nat} {n : ℤ} (hn : n < Vector3.trunc (a - r)) :
    (r ≤ a ∧ (r : ℚ) < a - (n + 1 / 2)) ∨
    (a < r ∧ (r : ℚ) + 1 / 2 - Int.fract (-a) ≤ a - (n + 1 / 2)) := by
  rcases lt_or_ge (a - r) 0 with hneg | hpos
  · rw [trunc_of_neg hneg, Int.ceil_sub_natCast] at hn
    have hceil := ceil_sub_self a
    have hcast : (n : ℚ) + 1 ≤ (⌈a⌉ : ℚ) - r := by exact_mod_cast hn
    exact Or.inr ⟨by linarith, by linarith⟩
  · rw [trunc_of_nonneg hpos] at hn
    have hfloor : ((n + 1 : ℤ) : ℚ) ≤ a - r := Int.le_floor.mp hn
    push_cast at hfloor
    exact Or.inl ⟨by linarith, by linarith⟩

/-- A cell outside the bounds of an enclosed axis lies outside the sphere. -/
theorem AxisEnclosed.far {a b c : ℚ} {r : Nat} (h : AxisEnclosed a b c r) {n : ℤ}
    (hn : ¬InBounds a r n) (j k : ℤ) :
    (r : ℚ) ^ 2 ≤ (n + 1 / 2 - a) ^ 2 + (j + 1 / 2 - b) ^ 2 + (k + 1 / 2 - c) ^ 2 := by
  have hb := offCentre_le b j
  have hc := offCentre_le c k
  have hbsq := sq_nonneg (offCentre b)
  have hcsq := sq_nonneg (offCentre c)
  rcases Nat.eq_zero_or_pos r with hzero | hpos
  · rw [hzero]
    push_cast
    have hasq := sq_nonneg ((n : ℚ) + 1 / 2 - a)
    have hnb := sq_nonneg ((j : ℚ) + 1 / 2 - b)
    have hnc := sq_nonneg ((k : ℚ) + 1 / 2 - c)
    linarith
  have hr : (1 : ℚ) ≤ r := by exact_mod_cast hpos
  have hfract := Int.fract_lt_one a
  have hfract' := Int.fract_lt_one (-a)
  have hreach : (r : ℚ) ^ 2 ≤ (n + 1 / 2 - a) ^ 2 + offCentre b ^ 2 + offCentre c ^ 2 := by
    by_cases hlow : n < Vector3.trunc (a - r)
    · rcases lower_far hlow with ⟨_, hfar⟩ | ⟨hlt, hfar⟩
      · have hsq := pow_le_pow_left₀ (by linarith : (0 : ℚ) ≤ r) hfar.le 2
        linarith
      · have hsq := pow_le_pow_left₀ (by linarith : (0 : ℚ) ≤ r + 1 / 2 - Int.fract (-a)) hfar 2
        have hcase := h.2.resolve_left (by linarith)
        linarith
    · have hup : Vector3.trunc (a + r) ≤ n := by
        by_contra hlt
        exact hn ⟨not_lt.mp hlow, not_le.mp hlt⟩
      rcases upper_far hup with ⟨_, hfar⟩ | ⟨hge, hfar⟩
      · have hsq := pow_le_pow_left₀ (by linarith : (0 : ℚ) ≤ r) hfar.le 2
        linarith
      · have hsq := pow_le_pow_left₀ (by linarith : (0 : ℚ) ≤ r + 1 / 2 - Int.fract a) hfar 2
        have hcase := h.1.resolve_left (by linarith)
        linarith
  linarith

/-- Beside an axis that is not enclosed some cell in the sphere is out of bounds. -/
theorem exists_outside {a b c : ℚ} {r : Nat} (h : ¬AxisEnclosed a b c r) :
    ∃ n : ℤ, ¬InBounds a r n ∧
      ((n : ℚ) + 1 / 2 - a) ^ 2 + offCentre b ^ 2 + offCentre c ^ 2 < r ^ 2 := by
  rcases not_and_or.mp h with hup | hlow
  · obtain ⟨hge, hlt⟩ := not_or.mp hup
    refine ⟨⌊a⌋ + r, fun hin => ?_, ?_⟩
    · have htrunc := hin.2
      rw [trunc_of_nonneg (not_lt.mp hge), Int.floor_add_natCast] at htrunc
      exact absurd htrunc (lt_irrefl _)
    · have hfloor := Int.floor_add_fract a
      have hside : (((⌊a⌋ + r : ℤ)) : ℚ) + 1 / 2 - a = r + 1 / 2 - Int.fract a := by
        push_cast
        linarith
      rw [hside]
      exact not_le.mp hlt
  · obtain ⟨hge, hlt⟩ := not_or.mp hlow
    have hneg : a - r < 0 := by linarith [not_le.mp hge]
    refine ⟨⌈a⌉ - r - 1, fun hin => ?_, ?_⟩
    · have htrunc := hin.1
      rw [trunc_of_neg hneg, Int.ceil_sub_natCast] at htrunc
      omega
    · have hceil := ceil_sub_self a
      have hside : (((⌈a⌉ - r - 1 : ℤ)) : ℚ) + 1 / 2 - a = -(r + 1 / 2 - Int.fract (-a)) := by
        push_cast
        linarith
      rw [hside, neg_sq]
      exact not_le.mp hlt

/-- The callback is called once for each cell whose centre lies in the sphere and for no other. -/
def EnumeratesSphere (pos : Vector3) (r : Nat) : Prop :=
  (forEachCoordInSphere pos r).Nodup ∧
  ∀ c, c ∈ forEachCoordInSphere pos r ↔ centreDistanceSquared c pos < r ^ 2

def Enclosed (pos : Vector3) (r : Nat) : Prop :=
  AxisEnclosed pos.x pos.y pos.z r ∧ AxisEnclosed pos.y pos.x pos.z r ∧
    AxisEnclosed pos.z pos.x pos.y r

/-- The sphere is enumerated exactly when its bounding box encloses the cells in it. -/
theorem enumeratesSphere_iff (pos : Vector3) (r : Nat) :
    EnumeratesSphere pos r ↔ Enclosed pos r := by
  constructor
  · rintro ⟨-, hmem⟩
    refine ⟨?_, ?_, ?_⟩
    · by_contra hnot
      obtain ⟨n, hout, hlt⟩ := exists_outside hnot
      rw [← offCentre_eq, ← offCentre_eq] at hlt
      have hin := (hmem ⟨n, ⌊pos.y⌋, ⌊pos.z⌋⟩).mpr hlt
      exact hout (mem_forEachCoordInSphere.mp hin).1
    · by_contra hnot
      obtain ⟨n, hout, hlt⟩ := exists_outside hnot
      rw [← offCentre_eq, ← offCentre_eq] at hlt
      have hin := (hmem ⟨⌊pos.x⌋, n, ⌊pos.z⌋⟩).mpr (by
        simp only [centreDistanceSquared]
        linarith)
      exact hout (mem_forEachCoordInSphere.mp hin).2.1
    · by_contra hnot
      obtain ⟨n, hout, hlt⟩ := exists_outside hnot
      rw [← offCentre_eq, ← offCentre_eq] at hlt
      have hin := (hmem ⟨⌊pos.x⌋, ⌊pos.y⌋, n⟩).mpr (by
        simp only [centreDistanceSquared]
        linarith)
      exact hout (mem_forEachCoordInSphere.mp hin).2.2.1
  · rintro ⟨hx, hy, hz⟩
    refine ⟨forEachCoordInSphere_nodup pos r, fun c => ?_⟩
    rw [mem_forEachCoordInSphere]
    refine ⟨fun h => h.2.2.2, fun hlt => ?_⟩
    rw [centreDistanceSquared] at hlt
    refine ⟨?_, ?_, ?_, hlt⟩
    · by_contra hout
      have hfar := hx.far hout c.y c.z
      linarith
    · by_contra hout
      have hfar := hy.far hout c.x c.z
      linarith
    · by_contra hout
      have hfar := hz.far hout c.x c.y
      linarith

/-- Around a position in a corner of its cell the sphere of radius 1 lacks a cell. -/
theorem sphere_incomplete :
    centreDistanceSquared ⟨1, 0, 0⟩ ⟨3 / 4, 1 / 2, 1 / 2⟩ < (1 : Nat) ^ 2 ∧
    (⟨1, 0, 0⟩ : Vector3i) ∉ forEachCoordInSphere ⟨3 / 4, 1 / 2, 1 / 2⟩ 1 ∧
    ¬EnumeratesSphere ⟨3 / 4, 1 / 2, 1 / 2⟩ 1 := by
  have hdist : centreDistanceSquared ⟨1, 0, 0⟩ ⟨3 / 4, 1 / 2, 1 / 2⟩ < (1 : Nat) ^ 2 := by
    norm_num [centreDistanceSquared]
  have hout : (⟨1, 0, 0⟩ : Vector3i) ∉ forEachCoordInSphere ⟨3 / 4, 1 / 2, 1 / 2⟩ 1 := by
    intro hmem
    have hbounds := (mem_forEachCoordInSphere.mp hmem).1.2
    norm_num [Vector3.trunc] at hbounds
  exact ⟨hdist, hout, fun h => hout ((h.2 _).mpr hdist)⟩

end Spatial3D
end CosmicArchitect
