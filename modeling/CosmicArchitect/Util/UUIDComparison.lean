import CosmicArchitect.Util.UUID

/-!
# Equality, inequality and hash of UUIDs (Util/UUID.cpp)

The three are written over the two words of a UUID, the text form over its bytes.
-/

namespace CosmicArchitect.Util
open Serialize

namespace UUID

/-- `operator!=` -/
def ne (u v : UUID) : Bool := u.data.1 != v.data.1 && u.data.2 != v.data.2

/-- `std::hash<UUID>` -/
def hash (u : UUID) : Nat := u.data.1 ^^^ u.data.2

variable {u v : UUID}

/-! ### Words and bytes -/

theorem ofData_inj : ∀ {bs cs : Bytes}, bs.length = cs.length → ofData bs = ofData cs → bs = cs := by
  intro bs
  induction bs with
  | nil =>
    intro cs hlen _
    exact (List.length_eq_zero_iff.mp hlen.symm).symm
  | cons b bs ih =>
    intro cs hlen h
    cases cs with
    | nil => exact absurd hlen (by simp)
    | cons c cs =>
      have hb := b.toNat_lt
      have hc := c.toNat_lt
      simp only [ofData] at h
      have hbyte : b = c := UInt8.toNat_inj.mp (by omega)
      have hrest := ih (Nat.succ.inj hlen) (by omega)
      rw [hbyte, hrest]

theorem bytes_inj (h : u.bytes = v.bytes) : u = v := by
  obtain ⟨bytes, _⟩ := u
  obtain ⟨_, _⟩ := v
  subst h
  rfl

theorem data_inj (h : u.data = v.data) : u = v := by
  have hu := u.size
  have hv := v.size
  have hfirst : u.bytes.take 8 = v.bytes.take 8 :=
    ofData_inj (by rw [List.length_take, List.length_take, hu, hv]) (congrArg Prod.fst h)
  have hsecond : u.bytes.drop 8 = v.bytes.drop 8 :=
    ofData_inj (by rw [List.length_drop, List.length_drop, hu, hv]) (congrArg Prod.snd h)
  apply bytes_inj
  calc u.bytes = u.bytes.take 8 ++ u.bytes.drop 8 := (List.take_append_drop 8 _).symm
    _ = v.bytes.take 8 ++ v.bytes.drop 8 := by rw [hfirst, hsecond]
    _ = v.bytes := List.take_append_drop 8 _

theorem toString_inj (h : u.toString = v.toString) : u = v := by
  have hu := uuidFromString_toString u
  rw [h, uuidFromString_toString v] at hu
  exact (Option.some.inj hu).symm

theorem eq_iff : u.eq v = true ↔ u = v := by
  constructor
  · intro h
    simp only [eq, Bool.and_eq_true, beq_iff_eq] at h
    exact data_inj (Prod.ext h.1 h.2)
  · intro h
    rw [h]
    exact eq_refl v

theorem ne_iff : u.ne v = true ↔ u.data.1 ≠ v.data.1 ∧ u.data.2 ≠ v.data.2 := by
  simp only [ne, Bool.and_eq_true, bne_iff_ne]

/-! ### The laws of a key -/

/-- What a key type owes a hash map and an inequality test. -/
structure Coherent (u v : UUID) : Prop where
  negation : u.ne v = !u.eq v
  bytes : u.eq v = true ↔ u.bytes = v.bytes
  text : u.bytes = v.bytes ↔ u.toString = v.toString
  hash : u.eq v = true → u.hash = v.hash

/-- The equality is that of the bytes and of the texts, and the hash respects it. -/
theorem eq_coherent (u v : UUID) : (u.eq v = true ↔ u.bytes = v.bytes) ∧
    (u.bytes = v.bytes ↔ u.toString = v.toString) ∧ (u.eq v = true → u.hash = v.hash) := by
  refine ⟨eq_iff.trans ⟨congrArg UUID.bytes, bytes_inj⟩, ?_, fun h => by rw [eq_iff.mp h]⟩
  exact ⟨fun h => by rw [bytes_inj h], fun h => by rw [toString_inj h]⟩

/-- The laws hold exactly for two UUIDs that differ in both words or in none: the inequality
asks for both. -/
theorem coherent_iff (u v : UUID) :
    u.Coherent v ↔ (u.data.1 = v.data.1 ↔ u.data.2 = v.data.2) := by
  obtain ⟨hbytes, htext, hhash⟩ := eq_coherent u v
  have hnegation : u.ne v = !u.eq v ↔ (u.data.1 = v.data.1 ↔ u.data.2 = v.data.2) := by
    rw [Bool.eq_iff_iff, ne_iff, Bool.not_eq_true', ← Bool.not_eq_true, eq, Bool.and_eq_true,
      beq_iff_eq, beq_iff_eq]
    tauto
  exact ⟨fun h => hnegation.mp h.negation, fun h => ⟨hnegation.mpr h, hbytes, htext, hhash⟩⟩

/-- Two UUIDs with one word in common are neither equal nor unequal. -/
theorem one_word_in_common :
    let u := zero
    let v : UUID := ⟨List.replicate 15 0 ++ [1], rfl⟩
    u.eq v = false ∧ u.ne v = false ∧ ¬u.Coherent v := by
  refine ⟨by decide, by decide, ?_⟩
  intro h
  exact absurd h.negation (by decide)

end UUID
end CosmicArchitect.Util
