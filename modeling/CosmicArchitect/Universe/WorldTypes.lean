import CosmicArchitect.Spatial3D.Machine

/-!
# The local world types of the game

The universe type registers one callback of each kind (Universe/UniverseModule.cpp:59-155),
the galaxy type none (Galaxy/GalaxyModule.cpp:81-105).
-/

namespace CosmicArchitect.Universe
open Serialize Spatial3D

/-- A galaxy entity: its `UUID` and the bits of its `TypeID`. -/
structure Galaxy where
  id : Nat
  typeId : Nat
deriving DecidableEq, Repr

/-- `universe::Node` and the entity list of its `spatial3d::Node`. -/
structure UniverseNode where
  entities : List Galaxy := []
  galaxies : List Galaxy := []
deriving DecidableEq, Repr

def uuidSize : Nat := 16
def typeIdSize : Nat := 8
def sizeTSize : Nat := 8

/-- `SerializeUniverseNode` (lines 59-75). -/
def serializeUniverseNode (_ : Vector3i) (n : NodeBody UniverseNode) (writer : Writer) : Writer :=
  let version := 0
  let writer := writer.write (toData sizeTSize version)
  let writer := writer.write (toData 1 n.scaleIndex)
  let writer := writer.write (toData sizeTSize n.body.galaxies.length)
  n.body.galaxies.foldl (fun writer galaxy =>
    (writer.write (toData uuidSize galaxy.id)).write (toData typeIdSize galaxy.typeId)) writer

/-- The loop of `DeserializeUniverseNode` (lines 86-97). -/
def readGalaxies : Nat → NodeBody UniverseNode → Reader → NodeBody UniverseNode × Reader
  | 0, n, reader => (n, reader)
  | count + 1, n, reader =>
    let (id, reader) := reader.read uuidSize
    let (types, reader) := reader.read typeIdSize
    let galaxy : Galaxy := ⟨ofData id, ofData types⟩
    readGalaxies count { n with body :=
      { entities := n.body.entities ++ [galaxy], galaxies := n.body.galaxies ++ [galaxy] } } reader

/-- `DeserializeUniverseNode` (lines 77-98). -/
def deserializeUniverseNode (_ : Vector3i) (n : NodeBody UniverseNode) (reader : Reader) :
    NodeBody UniverseNode × Reader :=
  let (_version, reader) := reader.read sizeTSize
  let (scaleIndex, reader) := reader.read 1
  let (galaxyCount, reader) := reader.read sizeTSize
  readGalaxies (ofData galaxyCount) { n with scaleIndex := ofData scaleIndex } reader

/-- `galaxy::k_galaxy_type` with the bit of `Header` (Galaxy/GalaxyModule.cpp:19-27, bits
in Entity/EntityPoly.cpp). -/
def galaxyTypeId : Nat :=
  2 ^ 0 + 2 ^ 2 + 2 ^ 3 + 2 ^ 8 + 2 ^ 10 + 2 ^ 22 + 2 ^ 24 + 2 ^ 27

/-- `GenerateUniverseNode` (lines 100-123); `seed` picks the four fresh ids. The position
of a galaxy entity is no part of the node. -/
def generateUniverseNode (seed : Nat) (pos : Vector3i) (n : NodeBody UniverseNode) :
    NodeBody UniverseNode :=
  if pos.y ≠ 0 then n
  else
    let galaxies : List Galaxy := (List.range 4).map fun i => ⟨seed + i, galaxyTypeId⟩
    { n with body :=
      { entities := n.body.entities ++ galaxies, galaxies := n.body.galaxies ++ galaxies } }

/-- `simulation.universe_type` (lines 127-154); durations in milliseconds. -/
def universeType : TypeData UniverseNode where
  maxScale := 16
  nodeKeepalive := 1000
  localNode := true
  newBody := {}
  serializeCallbacks := [serializeUniverseNode]
  deserializeCallbacks := [deserializeUniverseNode]
  generateCallbacks := [generateUniverseNode]

/-! ### The record keeps the scale index -/

theorem readGalaxies_scaleIndex (count : Nat) :
    ∀ (n : NodeBody UniverseNode) (reader : Reader),
      (readGalaxies count n reader).1.scaleIndex = n.scaleIndex := by
  induction count with
  | zero => intro n reader; rfl
  | succ count ih => intro n reader; exact ih _ _

theorem serializeUniverseNode_buffer (pos : Vector3i) (n : NodeBody UniverseNode) :
    ∃ rest, (serializeUniverseNode pos n {}).buffer =
      toData sizeTSize 0 ++ (toData 1 n.scaleIndex ++ rest) := by
  obtain ⟨rest, hrest⟩ := Writer.foldl_buffer
    (fun writer (galaxy : Galaxy) =>
      (writer.write (toData uuidSize galaxy.id)).write (toData typeIdSize galaxy.typeId))
    (fun w i => ⟨toData uuidSize i.id ++ toData typeIdSize i.typeId, by
      simp only [Writer.write, List.append_assoc]⟩) n.body.galaxies
    (((({} : Writer).write (toData sizeTSize 0)).write (toData 1 n.scaleIndex)).write
      (toData sizeTSize n.body.galaxies.length))
  refine ⟨toData sizeTSize n.body.galaxies.length ++ rest, ?_⟩
  refine hrest.trans ?_
  simp only [Writer.write, List.nil_append, List.append_assoc]

theorem deserializeUniverseNode_scaleIndex (pos : Vector3i) (n : NodeBody UniverseNode)
    (k : Nat) (rest : Bytes) : (deserializeUniverseNode pos n
      ⟨toData sizeTSize 0 ++ (toData 1 k ++ rest), 0⟩).1.scaleIndex = k % 256 := by
  have hread : ofData (Reader.read ⟨toData sizeTSize 0 ++ (toData 1 k ++ rest), sizeTSize⟩ 1).1 =
      k % 256 := by
    have h := Reader.read_append (toData sizeTSize 0) (toData 1 k) rest
    rw [toData_length, toData_length] at h
    rw [h, ofData_toData, Nat.pow_one]
  unfold deserializeUniverseNode
  simp only [readGalaxies_scaleIndex]
  exact hread

/-- `galaxy::Node`: the ids of its stars. -/
structure GalaxyNode where
  stars : List Nat := []
deriving DecidableEq, Repr

/-- `simulation.galaxy_type`. -/
def galaxyType : TypeData GalaxyNode where
  maxScale := 16
  nodeKeepalive := 10000
  localNode := true
  newBody := {}
  serializeCallbacks := []
  deserializeCallbacks := []
  generateCallbacks := []

theorem universeType_scaleIndex (pos : Vector3i) (n n' : NodeBody UniverseNode)
    (h : n.scaleIndex < universeType.maxScale) :
    (universeType.deserializeAll pos (universeType.serializeAll pos n) n').scaleIndex =
      n.scaleIndex := by
  obtain ⟨rest, hrest⟩ := serializeUniverseNode_buffer pos n
  have hlt : n.scaleIndex < 256 := lt_of_lt_of_le h (by decide)
  show (deserializeUniverseNode pos n' ⟨(serializeUniverseNode pos n {}).buffer, 0⟩).1.scaleIndex = _
  rw [hrest, deserializeUniverseNode_scaleIndex, Nat.mod_eq_of_lt hlt]

theorem universeType_generate (seed : Nat) (pos : Vector3i) (n : NodeBody UniverseNode) :
    (universeType.generateAll seed pos n).scaleIndex = n.scaleIndex := by
  show (generateUniverseNode seed pos n).scaleIndex = _
  unfold generateUniverseNode
  split <;> rfl

/-! ### The record round trip -/

/-- The bytes of one galaxy. -/
def Galaxy.record (g : Galaxy) : Bytes := toData uuidSize g.id ++ toData typeIdSize g.typeId

/-- The widths of the source's fields: `UUID` has 16 bytes, `TypeID` and `size_t` 8, the
scale index one. -/
structure Fits (n : NodeBody UniverseNode) : Prop where
  scaleIndex : n.scaleIndex < 256
  count : n.body.galaxies.length < 256 ^ sizeTSize
  id : ∀ g ∈ n.body.galaxies, g.id < 256 ^ uuidSize
  typeId : ∀ g ∈ n.body.galaxies, g.typeId < 256 ^ typeIdSize

theorem Galaxy.record_length (g : Galaxy) : g.record.length = uuidSize + typeIdSize := by
  simp only [record, List.length_append, toData_length]

theorem Reader.read_snd (buffer : Bytes) (pos size : Nat) :
    (Reader.read ⟨buffer, pos⟩ size).2 = ⟨buffer, pos + size⟩ := rfl

theorem Reader.read_toData {buffer before after : Bytes} {pos size v : Nat}
    (hbuffer : buffer = before ++ (toData size v ++ after)) (hpos : pos = before.length)
    (hv : v < 256 ^ size) : ofData (Reader.read ⟨buffer, pos⟩ size).1 = v := by
  have h := Reader.read_append before (toData size v) after
  rw [toData_length, ← hpos, ← hbuffer] at h
  rw [h, ofData_toData, Nat.mod_eq_of_lt hv]

theorem writeGalaxies_buffer (galaxies : List Galaxy) (writer : Writer) :
    (galaxies.foldl (fun writer galaxy =>
      (writer.write (toData uuidSize galaxy.id)).write (toData typeIdSize galaxy.typeId))
      writer).buffer = writer.buffer ++ galaxies.flatMap Galaxy.record := by
  induction galaxies generalizing writer with
  | nil => exact (List.append_nil _).symm
  | cons g galaxies ih =>
    rw [List.foldl_cons, ih]
    simp only [Writer.write, Galaxy.record, List.flatMap_cons, List.append_assoc]

theorem serializeUniverseNode_bytes (pos : Vector3i) (n : NodeBody UniverseNode) :
    (serializeUniverseNode pos n {}).buffer =
      toData sizeTSize 0 ++ (toData 1 n.scaleIndex ++
        (toData sizeTSize n.body.galaxies.length ++ n.body.galaxies.flatMap Galaxy.record)) := by
  refine (writeGalaxies_buffer n.body.galaxies _).trans ?_
  simp only [Writer.write, List.nil_append, List.append_assoc]

theorem readGalaxies_record {buffer before after : Bytes} {g : Galaxy} {pos : Nat}
    (hbuffer : buffer = before ++ (g.record ++ after)) (hpos : pos = before.length)
    (hid : g.id < 256 ^ uuidSize) (htype : g.typeId < 256 ^ typeIdSize) (count : Nat)
    (n : NodeBody UniverseNode) :
    readGalaxies (count + 1) n ⟨buffer, pos⟩ =
      readGalaxies count
        { n with body := ⟨n.body.entities ++ [g], n.body.galaxies ++ [g]⟩ }
        ⟨buffer, (before ++ g.record).length⟩ := by
  have hreadId : ofData (Reader.read ⟨buffer, pos⟩ uuidSize).1 = g.id :=
    Reader.read_toData (by rw [hbuffer, Galaxy.record, List.append_assoc]) hpos hid
  have hreadType : ofData (Reader.read ⟨buffer, pos + uuidSize⟩ typeIdSize).1 = g.typeId := by
    have hrest : buffer =
        (before ++ toData uuidSize g.id) ++ (toData typeIdSize g.typeId ++ after) := by
      rw [hbuffer, Galaxy.record]
      simp only [List.append_assoc]
    exact Reader.read_toData hrest (by rw [hpos, List.length_append, toData_length]) htype
  have hend : pos + uuidSize + typeIdSize = (before ++ g.record).length := by
    rw [hpos, List.length_append, Galaxy.record_length, Nat.add_assoc]
  simp only [readGalaxies, Reader.read_snd, hreadId, hreadType, hend]

/-- The loop reads all galaxies that stand in the buffer; the induction is on them. -/
theorem readGalaxies_append (galaxies : List Galaxy) :
    ∀ (before after : Bytes) (n : NodeBody UniverseNode),
      (∀ g ∈ galaxies, g.id < 256 ^ uuidSize) →
      (∀ g ∈ galaxies, g.typeId < 256 ^ typeIdSize) →
      readGalaxies galaxies.length n
          ⟨before ++ (galaxies.flatMap Galaxy.record ++ after), before.length⟩ =
        ({ n with body := ⟨n.body.entities ++ galaxies, n.body.galaxies ++ galaxies⟩ },
          ⟨before ++ (galaxies.flatMap Galaxy.record ++ after),
            before.length + (galaxies.flatMap Galaxy.record).length⟩) := by
  induction galaxies with
  | nil =>
    intro before after n _ _
    simp only [readGalaxies, List.length_nil, List.flatMap_nil, List.append_nil, Nat.add_zero]
  | cons g galaxies ih =>
    intro before after n hid htype
    have hbuffer : before ++ ((g :: galaxies).flatMap Galaxy.record ++ after) =
        before ++ (g.record ++ (galaxies.flatMap Galaxy.record ++ after)) := by
      rw [List.flatMap_cons, List.append_assoc]
    have hrest : before ++ ((g :: galaxies).flatMap Galaxy.record ++ after) =
        (before ++ g.record) ++ (galaxies.flatMap Galaxy.record ++ after) := by
      rw [hbuffer, List.append_assoc]
    rw [List.length_cons, readGalaxies_record hbuffer rfl (hid g List.mem_cons_self)
      (htype g List.mem_cons_self), hrest,
      ih _ _ _ (fun g' h => hid g' (List.mem_cons_of_mem _ h))
        (fun g' h => htype g' (List.mem_cons_of_mem _ h))]
    simp only [List.append_assoc, List.singleton_append, List.flatMap_cons, List.length_append,
      Nat.add_assoc]

/-- Reading the bytes written for a node into a fresh one takes all of them and restores
the scale index and the galaxies, which are also the entities of the fresh node. -/
theorem universeNode_roundTrip (pos : Vector3i) (n : NodeBody UniverseNode) (hn : Fits n)
    (scaleIndex : Nat) :
    deserializeUniverseNode pos ⟨scaleIndex, universeType.newBody⟩
        ⟨(serializeUniverseNode pos n {}).buffer, 0⟩ =
      (⟨n.scaleIndex, ⟨n.body.galaxies, n.body.galaxies⟩⟩,
        ⟨(serializeUniverseNode pos n {}).buffer,
          (serializeUniverseNode pos n {}).buffer.length⟩) := by
  have hbytes := serializeUniverseNode_bytes pos n
  have hscale : ofData (Reader.read
      ⟨(serializeUniverseNode pos n {}).buffer, 0 + sizeTSize⟩ 1).1 = n.scaleIndex :=
    Reader.read_toData hbytes (by rw [toData_length, Nat.zero_add]) hn.scaleIndex
  have hcount : ofData (Reader.read
      ⟨(serializeUniverseNode pos n {}).buffer, 0 + sizeTSize + 1⟩ sizeTSize).1 =
      n.body.galaxies.length := by
    have hrest : (serializeUniverseNode pos n {}).buffer =
        (toData sizeTSize 0 ++ toData 1 n.scaleIndex) ++
          (toData sizeTSize n.body.galaxies.length ++
            n.body.galaxies.flatMap Galaxy.record) := by
      rw [hbytes, List.append_assoc]
    exact Reader.read_toData hrest
      (by rw [List.length_append, toData_length, toData_length, Nat.zero_add]) hn.count
  have hloop := readGalaxies_append n.body.galaxies
    (toData sizeTSize 0 ++ (toData 1 n.scaleIndex ++ toData sizeTSize n.body.galaxies.length))
    [] ⟨n.scaleIndex, universeType.newBody⟩ hn.id hn.typeId
  rw [List.append_nil] at hloop
  have hbuffer : (serializeUniverseNode pos n {}).buffer =
      (toData sizeTSize 0 ++ (toData 1 n.scaleIndex ++ toData sizeTSize n.body.galaxies.length)) ++
        n.body.galaxies.flatMap Galaxy.record := by
    rw [hbytes]
    simp only [List.append_assoc]
  rw [← hbuffer, ← List.length_append, ← hbuffer] at hloop
  have hpos : 0 + sizeTSize + 1 + sizeTSize = (toData sizeTSize 0 ++
      (toData 1 n.scaleIndex ++ toData sizeTSize n.body.galaxies.length)).length := by
    simp only [List.length_append, toData_length, Nat.zero_add, Nat.add_assoc]
  simp only [deserializeUniverseNode, Reader.read_snd, hscale, hcount, hpos]
  exact hloop

theorem universeNode_roundTrip_two :
    let n : NodeBody UniverseNode := ⟨3, ⟨[], [⟨2 ^ 127 + 5, galaxyTypeId⟩, ⟨7, 1⟩]⟩⟩
    Fits n ∧ deserializeUniverseNode ⟨1, 0, 2⟩ ⟨0, universeType.newBody⟩
        ⟨(serializeUniverseNode ⟨1, 0, 2⟩ n {}).buffer, 0⟩ =
      (⟨n.scaleIndex, ⟨n.body.galaxies, n.body.galaxies⟩⟩,
        ⟨(serializeUniverseNode ⟨1, 0, 2⟩ n {}).buffer,
          (serializeUniverseNode ⟨1, 0, 2⟩ n {}).buffer.length⟩) := by
  have hn : Fits ⟨3, ⟨[], [⟨2 ^ 127 + 5, galaxyTypeId⟩, ⟨7, 1⟩]⟩⟩ :=
    ⟨by decide, by decide, by decide, by decide⟩
  exact ⟨hn, universeNode_roundTrip ⟨1, 0, 2⟩ _ hn 0⟩

end CosmicArchitect.Universe
