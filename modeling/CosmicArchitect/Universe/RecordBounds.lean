import CosmicArchitect.Universe.WorldTypes

/-!
# Reading node records within bounds (Serialize.h, UniverseModule.cpp)

`Reader::Read` cuts its view at the end of the buffer, but reads the whole object from where the
view starts. Here a read says whether it stays in the buffer. The entities of a record get the
types that it names, and those may be none.
-/

namespace CosmicArchitect.Serialize

/-- How reading a record fails: `substr` throws, bytes behind the buffer are read, an assertion
fails or a null pointer is called. -/
inductive ReadFault
  | outOfRange
  | outOfBounds
  | assertion
  | nullCall
deriving DecidableEq, Repr

/-- `Reader::Read` (Serialize.h:16-25) -/
def Reader.readChecked (r : Reader) (size : Nat) : Except ReadFault (Bytes × Reader) :=
  if r.buffer.length < r.pos then .error .outOfRange
  else if r.buffer.length - r.pos < size then .error .outOfBounds
  else .ok (r.read size)

/-- A read that starts in the buffer stays in it if the object fits. -/
theorem Reader.readChecked_bind {β : Type} {r : Reader} {size : Nat}
    (hpos : r.pos ≤ r.buffer.length) (k : Bytes × Reader → Except ReadFault β) :
    (r.readChecked size >>= k) =
      if r.pos + size ≤ r.buffer.length then k (r.read size) else .error .outOfBounds := by
  have hrange : ¬ r.buffer.length < r.pos := by omega
  rw [readChecked, if_neg hrange]
  by_cases hfits : r.pos + size ≤ r.buffer.length
  · rw [if_pos hfits, if_neg (by omega)]
    rfl
  · rw [if_neg hfits, if_pos (by omega)]
    rfl

theorem Reader.readChecked_ok_iff {β : Type} {r : Reader} {size : Nat} {b : β}
    (hpos : r.pos ≤ r.buffer.length) (k : Bytes × Reader → Except ReadFault β) :
    (r.readChecked size >>= k) = .ok b ↔
      r.pos + size ≤ r.buffer.length ∧ k (r.read size) = .ok b := by
  rw [readChecked_bind hpos]
  by_cases hfits : r.pos + size ≤ r.buffer.length
  · rw [if_pos hfits]
    exact (and_iff_right hfits).symm
  · rw [if_neg hfits]
    exact iff_of_false (fun hc => by cases hc) fun hc => hfits hc.1

end CosmicArchitect.Serialize

namespace CosmicArchitect.Universe
open Serialize Spatial3D

variable {pos : Vector3i} {n : NodeBody UniverseNode} {buffer : Bytes} {reader : Reader}

/-- The entries of `k_type_info` that are filled (EntityPoly.cpp:40-71). -/
def numTypes : Nat := 29

/-- The bits of a `TypeID`. -/
def numTypeBits : Nat := 40

/-- `SimulationCreateEntity` (UniverseSimulation.cpp:367-374), in a factory that has the given ids.
An archetype keeps the bits of a `TypeID` only, so that a word with others does not name it
(PolyFactory.h:269), and `ConstructPoly` calls the type of each bit. -/
def simulationCreateEntity (alive : List Nat) (galaxy : Galaxy) : Except ReadFault (List Nat) :=
  if galaxy.id ∈ alive then .ok alive
  else if 2 ^ numTypeBits ≤ galaxy.typeId then .error .assertion
  else if 2 ^ numTypes ≤ galaxy.typeId then .error .nullCall
  else .ok (galaxy.id :: alive)

/-- The loop of `DeserializeUniverseNode` (lines 86-97) with calls that may fail. -/
def readGalaxiesChecked : Nat → List Nat → NodeBody UniverseNode → Reader →
    Except ReadFault (NodeBody UniverseNode × Reader)
  | 0, _, n, reader => .ok (n, reader)
  | count + 1, alive, n, reader => do
    let (id, reader) ← reader.readChecked uuidSize
    let (types, reader) ← reader.readChecked typeIdSize
    let galaxy : Galaxy := ⟨ofData id, ofData types⟩
    let alive ← simulationCreateEntity alive galaxy
    readGalaxiesChecked count alive { n with body :=
      { entities := n.body.entities ++ [galaxy], galaxies := n.body.galaxies ++ [galaxy] } } reader

/-- `DeserializeUniverseNode` (lines 77-98) with calls that may fail. -/
def deserializeUniverseNodeChecked (alive : List Nat) (_ : Vector3i) (n : NodeBody UniverseNode)
    (reader : Reader) : Except ReadFault (NodeBody UniverseNode × Reader) := do
  let (_version, reader) ← reader.readChecked sizeTSize
  let (scaleIndex, reader) ← reader.readChecked 1
  let (galaxyCount, reader) ← reader.readChecked sizeTSize
  readGalaxiesChecked (ofData galaxyCount) alive { n with scaleIndex := ofData scaleIndex } reader

/-! ### What a record holds -/

/-- The bytes of the version, the scale index and the galaxy count. -/
def headerSize : Nat := sizeTSize + 1 + sizeTSize

/-- The galaxy count of a record. -/
def recordCount (buffer : Bytes) : Nat := ofData ((buffer.drop (sizeTSize + 1)).take sizeTSize)

/-- The galaxies from a position of a record on. -/
def galaxiesAt (buffer : Bytes) : Nat → Nat → List Galaxy
  | 0, _ => []
  | count + 1, pos =>
    ⟨ofData ((buffer.drop pos).take uuidSize),
      ofData ((buffer.drop (pos + uuidSize)).take typeIdSize)⟩ ::
    galaxiesAt buffer count (pos + uuidSize + typeIdSize)

/-- The galaxies of a record. -/
def recordGalaxies (buffer : Bytes) : List Galaxy :=
  galaxiesAt buffer (recordCount buffer) headerSize

/-- Each galaxy that is not there already has component types only. -/
def Creatable (alive : List Nat) (galaxies : List Galaxy) : Prop :=
  ∀ before galaxy after, galaxies = before ++ galaxy :: after →
    galaxy.id ∈ alive ∨ galaxy.id ∈ before.map Galaxy.id ∨ galaxy.typeId < 2 ^ numTypes

theorem creatable_nil (alive : List Nat) : Creatable alive [] := by
  intro before galaxy after h
  simp at h

theorem creatable_cons {alive : List Nat} {galaxy : Galaxy} {galaxies : List Galaxy} :
    Creatable alive (galaxy :: galaxies) ↔ (galaxy.id ∈ alive ∨ galaxy.typeId < 2 ^ numTypes) ∧
      Creatable (galaxy.id :: alive) galaxies := by
  constructor
  · intro h
    constructor
    · have hfirst := h [] galaxy galaxies rfl
      simpa using hfirst
    · intro before g after hg
      have hlater := h (galaxy :: before) g after (by rw [hg]; rfl)
      rw [List.map_cons, List.mem_cons] at hlater
      rw [List.mem_cons]
      tauto
  · rintro ⟨hfirst, hrest⟩ before g after hg
    rcases List.cons_eq_append_iff.mp hg with ⟨rfl, heq⟩ | ⟨before', rfl, hgalaxies⟩
    · obtain ⟨rfl, -⟩ := List.cons.inj heq
      exact hfirst.imp_right Or.inr
    · have hlater := hrest before' g after hgalaxies
      rw [List.mem_cons] at hlater
      rw [List.map_cons, List.mem_cons]
      tauto

/-- What counts is which ids are there. -/
theorem Creatable.congr {alive alive' : List Nat} {galaxies : List Galaxy}
    (h : ∀ id, id ∈ alive ↔ id ∈ alive') :
    Creatable alive galaxies ↔ Creatable alive' galaxies := by
  simp only [Creatable, h]

theorem simulationCreateEntity_ok_iff {alive alive' : List Nat} {galaxy : Galaxy} :
    simulationCreateEntity alive galaxy = .ok alive' ↔
      (galaxy.id ∈ alive ∨ galaxy.typeId < 2 ^ numTypes) ∧
        alive' = if galaxy.id ∈ alive then alive else galaxy.id :: alive := by
  have hbits : 2 ^ numTypes ≤ 2 ^ numTypeBits := by decide
  rw [simulationCreateEntity]
  by_cases halive : galaxy.id ∈ alive
  · rw [if_pos halive, if_pos halive, Except.ok.injEq]
    exact ⟨fun h => ⟨Or.inl halive, h.symm⟩, fun h => h.2.symm⟩
  · rw [if_neg halive, if_neg halive, or_iff_right halive]
    by_cases htypes : galaxy.typeId < 2 ^ numTypes
    · rw [if_neg (by omega), if_neg (by omega), Except.ok.injEq]
      exact ⟨fun h => ⟨htypes, h.symm⟩, fun h => h.2.symm⟩
    · refine iff_of_false (fun hc => ?_) fun hc => htypes hc.1
      rw [if_pos (Nat.le_of_not_lt htypes)] at hc
      split at hc
      · cases hc
      · cases hc

/-- The loop ends if the buffer holds all the galaxies and each can be created. -/
theorem readGalaxiesChecked_ok_iff (count : Nat) : ∀ (alive : List Nat) (n : NodeBody UniverseNode)
    (reader : Reader) (r : NodeBody UniverseNode × Reader), reader.pos ≤ reader.buffer.length →
    (readGalaxiesChecked count alive n reader = .ok r ↔
      reader.pos + count * (uuidSize + typeIdSize) ≤ reader.buffer.length ∧
        Creatable alive (galaxiesAt reader.buffer count reader.pos) ∧
        r = readGalaxies count n reader) := by
  induction count with
  | zero =>
    intro alive n reader r hpos
    rw [readGalaxiesChecked, Except.ok.injEq]
    refine ⟨fun h => ⟨by omega, creatable_nil alive, h.symm⟩, fun h => h.2.2.symm⟩
  | succ count ih =>
    intro alive n reader r hpos
    rw [readGalaxiesChecked, Reader.readChecked_ok_iff hpos, Nat.add_mul]
    by_cases hid : reader.pos + uuidSize ≤ reader.buffer.length
    case neg => exact iff_of_false (fun hc => hid hc.1) fun hc => hid (by omega)
    rw [and_iff_right hid]
    simp only
    rw [Reader.readChecked_ok_iff (r := (reader.read uuidSize).2) hid]
    by_cases htypes : reader.pos + uuidSize + typeIdSize ≤ reader.buffer.length
    case neg => exact iff_of_false (fun hc => htypes hc.1) fun hc => htypes (by omega)
    refine (and_iff_right htypes).trans ?_
    rw [galaxiesAt, creatable_cons]
    generalize hgalaxy : Galaxy.mk (ofData ((reader.buffer.drop reader.pos).take uuidSize))
      (ofData ((reader.buffer.drop (reader.pos + uuidSize)).take typeIdSize)) = galaxy
    simp only [Reader.read, hgalaxy]
    have hcond : reader.pos + uuidSize + typeIdSize + count * (uuidSize + typeIdSize) ≤
        reader.buffer.length ↔ reader.pos + (count * (uuidSize + typeIdSize) +
          1 * (uuidSize + typeIdSize)) ≤ reader.buffer.length := by omega
    have hnext : readGalaxies (count + 1) n reader = readGalaxies count { n with body :=
        { entities := n.body.entities ++ [galaxy], galaxies := n.body.galaxies ++ [galaxy] } }
        ⟨reader.buffer, reader.pos + uuidSize + typeIdSize⟩ := by
      rw [← hgalaxy]
      rfl
    have hids : ∀ id, id ∈ (if galaxy.id ∈ alive then alive else galaxy.id :: alive) ↔
        id ∈ galaxy.id :: alive := by
      intro id
      split
      · next halive =>
        rw [List.mem_cons]
        exact (or_iff_right_of_imp fun heq => heq ▸ halive).symm
      · rfl
    rw [hnext, ← hcond]
    cases hcreate : simulationCreateEntity alive galaxy with
    | error fault =>
      refine iff_of_false (fun hc => by cases hc) fun hc => ?_
      rw [simulationCreateEntity_ok_iff.mpr ⟨hc.2.1.1, rfl⟩] at hcreate
      cases hcreate
    | ok alive' =>
      obtain ⟨hfirst, rfl⟩ := simulationCreateEntity_ok_iff.mp hcreate
      rw [and_iff_right hfirst, ← Creatable.congr hids]
      exact ih _ _ ⟨reader.buffer, reader.pos + uuidSize + typeIdSize⟩ r htypes

theorem deserializeUniverseNodeChecked_ok_iff (alive : List Nat) (pos : Vector3i)
    (n : NodeBody UniverseNode) (buffer : Bytes) (r : NodeBody UniverseNode × Reader) :
    deserializeUniverseNodeChecked alive pos n ⟨buffer, 0⟩ = .ok r ↔
      headerSize + recordCount buffer * (uuidSize + typeIdSize) ≤ buffer.length ∧
        Creatable alive (recordGalaxies buffer) ∧
        r = deserializeUniverseNode pos n ⟨buffer, 0⟩ := by
  have hsize : headerSize = sizeTSize + 1 + sizeTSize := rfl
  rw [deserializeUniverseNodeChecked,
    Reader.readChecked_ok_iff (r := ⟨buffer, 0⟩) (Nat.zero_le buffer.length)]
  by_cases hversion : 0 + sizeTSize ≤ buffer.length
  case neg => exact iff_of_false (fun hc => hversion hc.1) fun hc => hversion (by omega)
  rw [and_iff_right hversion]
  simp only [Reader.read_snd]
  rw [Reader.readChecked_ok_iff (r := ⟨buffer, 0 + sizeTSize⟩) hversion]
  by_cases hscale : 0 + sizeTSize + 1 ≤ buffer.length
  case neg => exact iff_of_false (fun hc => hscale hc.1) fun hc => hscale (by omega)
  refine (and_iff_right hscale).trans ?_
  simp only [Reader.read_snd]
  rw [Reader.readChecked_ok_iff (r := ⟨buffer, 0 + sizeTSize + 1⟩) hscale]
  by_cases hcount : 0 + sizeTSize + 1 + sizeTSize ≤ buffer.length
  case neg => exact iff_of_false (fun hc => hcount hc.1) fun hc => hcount (by omega)
  refine (and_iff_right hcount).trans ?_
  have hloop := readGalaxiesChecked_ok_iff (recordCount buffer) alive
    { n with scaleIndex := ofData (Reader.read ⟨buffer, 0 + sizeTSize⟩ 1).1 }
    ⟨buffer, 0 + sizeTSize + 1 + sizeTSize⟩ r hcount
  rw [Nat.zero_add, ← hsize] at hloop
  simp only [Nat.zero_add]
  exact hloop

/-! ### Records that were written -/

theorem readGalaxies_galaxies (count : Nat) : ∀ (n : NodeBody UniverseNode) (reader : Reader),
    (readGalaxies count n reader).2.pos = reader.pos + count * (uuidSize + typeIdSize) ∧
    (readGalaxies count n reader).1.body.galaxies =
      n.body.galaxies ++ galaxiesAt reader.buffer count reader.pos := by
  induction count with
  | zero =>
    intro n reader
    rw [Nat.zero_mul]
    exact ⟨rfl, (List.append_nil _).symm⟩
  | succ count ih =>
    intro n reader
    obtain ⟨hpos, hgalaxies⟩ := ih
      { n with body := ⟨n.body.entities ++ [⟨ofData (reader.read uuidSize).1,
          ofData ((reader.read uuidSize).2.read typeIdSize).1⟩],
        n.body.galaxies ++ [⟨ofData (reader.read uuidSize).1,
          ofData ((reader.read uuidSize).2.read typeIdSize).1⟩]⟩ }
      ((reader.read uuidSize).2.read typeIdSize).2
    constructor
    · refine hpos.trans ?_
      show reader.pos + uuidSize + typeIdSize + count * (uuidSize + typeIdSize) = _
      rw [Nat.add_mul]
      omega
    · refine hgalaxies.trans ?_
      rw [List.append_assoc]
      rfl

/-- A written record is read within its bounds if its galaxies can be created. -/
theorem deserialize_written (alive : List Nat) (pos : Vector3i) (n : NodeBody UniverseNode)
    (hn : Fits n) (hcreatable : Creatable alive n.body.galaxies) (scaleIndex : Nat) :
    deserializeUniverseNodeChecked alive pos ⟨scaleIndex, universeType.newBody⟩
        ⟨(serializeUniverseNode pos n {}).buffer, 0⟩ =
      .ok (⟨n.scaleIndex, ⟨n.body.galaxies, n.body.galaxies⟩⟩,
        ⟨(serializeUniverseNode pos n {}).buffer, (serializeUniverseNode pos n {}).buffer.length⟩) := by
  have hround := universeNode_roundTrip pos n hn scaleIndex
  generalize (serializeUniverseNode pos n {}).buffer = buffer at hround ⊢
  obtain ⟨hend, hgalaxies⟩ : (deserializeUniverseNode pos ⟨scaleIndex, universeType.newBody⟩
        ⟨buffer, 0⟩).2.pos = headerSize + recordCount buffer * (uuidSize + typeIdSize) ∧
      (deserializeUniverseNode pos ⟨scaleIndex, universeType.newBody⟩ ⟨buffer, 0⟩).1.body.galaxies =
        [] ++ recordGalaxies buffer := readGalaxies_galaxies _ _ _
  rw [hround] at hend hgalaxies
  rw [List.nil_append] at hgalaxies
  rw [deserializeUniverseNodeChecked_ok_iff, hround, ← hgalaxies]
  exact ⟨Nat.le_of_eq hend.symm, hcreatable, rfl⟩

/-! ### All records -/

/-- A record is read to its end, without an access outside of it, if and only if it holds its header
and as many galaxies as the header says, and each galaxy that is not there already has component
types only. -/
theorem deserialize_in_bounds_iff (alive : List Nat) (pos : Vector3i) (n : NodeBody UniverseNode)
    (buffer : Bytes) :
    (∃ r, deserializeUniverseNodeChecked alive pos n ⟨buffer, 0⟩ = .ok r) ↔
      headerSize + recordCount buffer * (uuidSize + typeIdSize) ≤ buffer.length ∧
        Creatable alive (recordGalaxies buffer) := by
  simp only [deserializeUniverseNodeChecked_ok_iff]
  exact ⟨fun h => ⟨h.choose_spec.1, h.choose_spec.2.1⟩, fun h => ⟨_, h.1, h.2, rfl⟩⟩

/-- An empty record, one that announces a galaxy it does not hold, and one with a galaxy of a type
that does not exist. -/
theorem deserialize_out_of_bounds :
    deserializeUniverseNodeChecked [] ⟨0, 0, 0⟩ ⟨0, {}⟩ ⟨[], 0⟩ = .error .outOfBounds ∧
      deserializeUniverseNodeChecked [] ⟨0, 0, 0⟩ ⟨0, {}⟩
        ⟨toData sizeTSize 0 ++ toData 1 3 ++ toData sizeTSize 1, 0⟩ = .error .outOfBounds ∧
      deserializeUniverseNodeChecked [] ⟨0, 0, 0⟩ ⟨0, {}⟩
        ⟨toData sizeTSize 0 ++ toData 1 3 ++ toData sizeTSize 1 ++ toData uuidSize 7 ++
          toData typeIdSize (2 ^ 30), 0⟩ = .error .nullCall := by
  decide

end CosmicArchitect.Universe
