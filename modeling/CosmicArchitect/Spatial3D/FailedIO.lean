import CosmicArchitect.Spatial3D.StaleData

/-!
# Failed database calls

`DEBUG_CRASH` is the only reaction of the owner to a failed call, and the release build
drops it. Runs in which the owner never sees a failed call lose nothing; a failed write
that is seen destroys the node, a failed read that is seen gets the record overwritten.
-/

namespace CosmicArchitect.Spatial3D
open Serialize

variable {D : Type} {t : TypeData D} {db : NodeCoord → Option Bytes} {m : State D}

def Guard.noFailureSeen : Guard := ⟨True, False, False, True⟩

theorem noFailureSeen_admits {l : Label D} (h : ¬ SeesFailedRead m l ∧ ¬ SeesFailedWrite m l) :
    Guard.noFailureSeen.Admits m l :=
  ⟨fun _ => trivial, h.1, h.2, fun _ => trivial⟩

theorem noFailureSeen_checked : Guard.noFailureSeen.Checked := fun h => h.elim False.elim False.elim

/- The last serialized content of the destroyed node was stored before its destruction. -/
def DestroyedStored (a : Nat) (c : NodeCoord) (older : List Event) : Prop :=
  ∃ data rest, life a older = .serialized a c data :: rest ∧ StoredIn a c data older

/- The bytes come from a node whose read found the record that they overwrite: it was
   deserialized from that record, or generated because there was none. -/
def OverwriteSourced (t : TypeData D) (db : NodeCoord → Option Bytes) (c : NodeCoord)
    (data : Bytes) (older : List Event) : Prop :=
  ∃ a, Gated t c a [.serialized a c data, .loaded a] (record db c older) older

structure NothingLost (t : TypeData D) (db : NodeCoord → Option Bytes) (m : State D) : Prop where
  destroyed : ∀ newer older a c, m.trace = newer ++ .destroyed a c :: older →
    DestroyedStored a c older
  overwritten : ∀ newer older c data, m.trace = newer ++ .stored c data :: older →
    OverwriteSourced t db c data older
  stored : ∀ c, m.world.database c = record db c m.trace

theorem nothing_lost (hl : t.localNode = true) (hkey : Keyed t db)
    (h : (worldMachine t db).Reach (fun m l => ¬ SeesFailedRead m l ∧ ¬ SeesFailedWrite m l) m) :
    NothingLost t db m := by
  obtain ⟨-, hstories⟩ :=
    reach_stories hl noFailureSeen_checked (h.mono fun _ _ => noFailureSeen_admits)
  have hjust : ∀ {newer older e}, m.trace = newer ++ e :: older →
      JustifiedEvent t db Guard.noFailureSeen older e := by
    intro newer older e htr
    have hsplit : Justified t db Guard.noFailureSeen (newer ++ e :: older) := by
      rw [← htr]
      exact hstories.justified
    exact hsplit.split
  refine ⟨?_, ?_, hstories.recorded⟩
  · intro newer older a c htr
    exact hjust htr hkey
  · intro newer older c data htr
    exact hjust htr hkey

/-- The node of `loadRun` is written; the database fails the first time. -/
def storeRun {D : Type} (outcome : Outcome) : List (Label D) :=
  loadRun ++ [.worldDoNodeUnloadCommands, .next 0 0, .perform 0 outcome, .finish 0] ++ passScales ++
    [.worldDoNodeUnloadCommands, .next 1 0]

theorem nothing_lost_storeRun :
    ∃ m, (worldMachine Universe.universeType fun _ => none).exec (initial _ fun _ => none)
        (storeRun .ok) = some m ∧ NothingLost Universe.universeType (fun _ => none) m := by
  obtain ⟨m, hm⟩ := Option.isSome_iff_exists.mp
    (show ((worldMachine Universe.universeType fun _ => none).exec (initial _ fun _ => none)
      (storeRun .ok)).isSome = true from by decide +kernel)
  have hkeyed : Keyed Universe.universeType fun _ => none :=
    universeType_keyed fun _ _ h => by cases h
  exact ⟨m, hm, nothing_lost rfl hkeyed (.exec (.init rfl) (by decide +kernel) hm)⟩

/-! ### What a failed call does -/

def failed : Outcome := .error .systemError

/-- A node is created, its read fails, and it is loaded, marked for unloading and written. -/
def failedReadRun {D : Type} : List (Label D) :=
  [.touchNode 0 ⟨0, 0, 0⟩ 0 0, .worldDoNodeLoadCommands 0, .next 0 0, .perform 0 failed,
      .finish 0] ++ passScales ++ [.worldDoNodeLoadCommands 1, .next 1 0] ++ passScales ++
    [.worldDoNodeLoadCommands 2, .next 1 0] ++ passScales ++
    [.scaleUnloadUnutilizedNodes 0 20000 [⟨0, 0, 0⟩], .worldDoNodeUnloadCommands, .next 0 0,
      .perform 0 .ok]

/-- The record of a node with one galaxy. -/
def galaxyRecord : Bytes :=
  Universe.universeType.serializeAll ⟨0, 0, 0⟩ ⟨0, { galaxies := [⟨5, Universe.galaxyTypeId⟩] }⟩

def emptyRecord : Bytes := Universe.universeType.serializeAll ⟨0, 0, 0⟩ ⟨0, {}⟩

/-- A database that holds `galaxyRecord` for the coordinate of `failedReadRun`. -/
def galaxyDatabase : NodeCoord → Option Bytes :=
  fun c => if c = ⟨⟨0, 0, 0⟩, 0⟩ then some galaxyRecord else none

theorem galaxyDatabase_records : UniverseRecords galaxyDatabase := by
  intro c data h
  simp only [galaxyDatabase] at h
  split at h
  · next hc =>
    cases h
    cases hc
    exact ⟨⟨0, { galaxies := [⟨5, Universe.galaxyTypeId⟩] }⟩, rfl, by decide, rfl⟩
  · cases h

/-- The events of a history that could source the content of a node. -/
def sources (tr : List Event) : List Event :=
  tr.filter fun
    | .finished _ st _ => st = .success ∨ st = .notFoundError
    | _ => false

theorem not_overwriteSourced {c : NodeCoord} {data : Bytes} {older : List Event}
    (h : sources older = []) : ¬ OverwriteSourced t db c data older := by
  intro hs
  obtain ⟨a, τ, io, ⟨newer, older', rfl, -⟩, hfound, -⟩ := hs
  have hmem : Event.finished τ io.status io.data ∈
      sources (newer ++ .finished τ io.status io.data :: older') := by
    refine List.mem_filter.mpr ⟨List.mem_append_right _ (List.mem_cons_self ..), ?_⟩
    rcases hfound with ⟨hst, -⟩ | ⟨hst, -⟩ <;> simp [hst]
  rw [h] at hmem
  cases hmem

/-- The events of a history that store a record. -/
def stores (tr : List Event) : List Event :=
  tr.filter fun
    | .stored _ _ => true
    | _ => false

theorem not_destroyedStored {a : Nat} {c : NodeCoord} {older : List Event}
    (h : stores older = []) : ¬ DestroyedStored a c older := by
  intro hs
  obtain ⟨data, rest, -, newer, older', rfl, -⟩ := hs
  have hmem : Event.stored c data ∈ stores (newer ++ .stored c data :: older') :=
    List.mem_filter.mpr ⟨List.mem_append_right _ (List.mem_cons_self ..), rfl⟩
  rw [h] at hmem
  cases hmem

/- After a failed read the record of the coordinate, with one galaxy, is overwritten by an
   empty node; after a failed write the node is destroyed although nothing was stored. -/
theorem failed_io_loses :
    (UniverseRecords galaxyDatabase ∧ ∃ m older, (worldMachine Universe.universeType galaxyDatabase).Reachable m ∧
      m.trace = .stored ⟨⟨0, 0, 0⟩, 0⟩ emptyRecord :: older ∧
      record galaxyDatabase ⟨⟨0, 0, 0⟩, 0⟩ older = some galaxyRecord ∧
      ¬ OverwriteSourced Universe.universeType galaxyDatabase ⟨⟨0, 0, 0⟩, 0⟩ emptyRecord older) ∧
    (∃ m older, (worldMachine Universe.universeType fun _ => none).Reachable m ∧
      m.trace = .destroyed 0 ⟨⟨0, 0, 0⟩, 0⟩ :: older ∧
      ¬ DestroyedStored 0 ⟨⟨0, 0, 0⟩, 0⟩ older) := by
  have hsplit : ∀ db ls e, ((worldMachine Universe.universeType db).exec (initial _ db) ls).bind
      (fun m => m.trace.head?) = some e → ∃ m older,
        (worldMachine Universe.universeType db).exec (initial _ db) ls = some m ∧
        m.trace = e :: older := by
    intro db ls e h
    obtain ⟨m, hm, hhead⟩ := Option.bind_eq_some_iff.mp h
    obtain ⟨older, holder⟩ := List.head?_eq_some_iff.mp hhead
    exact ⟨m, older, hm, holder⟩
  refine ⟨?_, ?_⟩
  · obtain ⟨m, older, hm, htr⟩ := hsplit galaxyDatabase failedReadRun
      (.stored ⟨⟨0, 0, 0⟩, 0⟩ emptyRecord) (by decide +kernel)
    have holder : ((worldMachine Universe.universeType galaxyDatabase).exec
        (initial _ galaxyDatabase) failedReadRun).map (fun m =>
          (sources m.trace.tail, record galaxyDatabase ⟨⟨0, 0, 0⟩, 0⟩ m.trace.tail)) =
        some ([], some galaxyRecord) := by decide +kernel
    rw [hm, Option.map_some, htr, List.tail_cons] at holder
    have hpair := Option.some.inj holder
    exact ⟨galaxyDatabase_records, m, older, Library.Machine.reachable_of_exec rfl hm, htr,
      congrArg Prod.snd hpair, not_overwriteSourced (congrArg Prod.fst hpair)⟩
  · obtain ⟨m, older, hm, htr⟩ := hsplit (fun _ => none) (storeRun failed)
      (.destroyed 0 ⟨⟨0, 0, 0⟩, 0⟩) (by decide +kernel)
    have holder : ((worldMachine Universe.universeType fun _ => none).exec
        (initial _ fun _ => none) (storeRun failed)).map (fun m => stores m.trace.tail) =
        some [] := by decide +kernel
    rw [hm, Option.map_some, htr, List.tail_cons] at holder
    exact ⟨m, older, Library.Machine.reachable_of_exec rfl hm, htr,
      not_destroyedStored (Option.some.inj holder)⟩

end CosmicArchitect.Spatial3D
