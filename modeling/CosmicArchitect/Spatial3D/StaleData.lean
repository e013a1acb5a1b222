import CosmicArchitect.Spatial3D.StoryMoves
import CosmicArchitect.Spatial3D.TaskStates

/-!
# Records follow their nodes

When no database call fails, a coordinate has at most one outstanding background task,
owned by its node, and a node gets back exactly the bytes that the previous node of its
coordinate was serialized to.
-/

namespace CosmicArchitect.Spatial3D
open Serialize

variable {D : Type} {t : TypeData D} {db : NodeCoord → Option Bytes} {m : State D}

/-! ### The types of the game keep the scale index -/

/-- A database whose records were written by universe nodes of their coordinates. -/
def UniverseRecords (db : NodeCoord → Option Bytes) : Prop :=
  ∀ c data, db c = some data → ∃ n : NodeBody Universe.UniverseNode,
    n.scaleIndex = c.scaleIndex ∧ n.scaleIndex < Universe.universeType.maxScale ∧
      data = Universe.universeType.serializeAll c.position n

theorem universeType_keyed (h : UniverseRecords db) : Keyed Universe.universeType db where
  written pos b hlt b' _ := Universe.universeType_scaleIndex pos b b' hlt
  generated := Universe.universeType_generate
  initial := by
    intro c data hdata b _
    obtain ⟨n, hn, hlt, rfl⟩ := h c data hdata
    rw [Universe.universeType_scaleIndex c.position n b hlt, hn]

theorem galaxyType_keyed (db : NodeCoord → Option Bytes) : Keyed Universe.galaxyType db where
  written _ _ _ _ hb := hb
  generated _ _ _ := rfl
  initial _ _ _ _ hb := hb

/-! ### Runs without errors of the store -/

def Guard.storeWorks : Guard := ⟨True, True, True, False⟩

theorem storeWorks_admits {l : Label D} (h : ¬ StoreFails l) : Guard.storeWorks.Admits m l :=
  ⟨fun _ => trivial, fun _ => trivial, fun _ => trivial, h⟩

theorem storeWorks_checked : Guard.storeWorks.Checked := fun _ h => h

/- An outstanding background task belongs to the node stored at the coordinate of its
   `IOTask`, in every state between its start and the moment `finished` is set. -/
def TaskOwned (w : World D) (e : PoolTask) : Prop :=
  ∃ io a n, w.tasks e.task = some io ∧ io.finished = false ∧
    w.At io.coord.scaleIndex io.coord.position a n ∧ n.task = some e.task

theorem taskOwned_of_stories {G : Guard} (hkey : Keyed t db) (hsound : Sound t G m.world)
    (hstories : Stories t db G (view m.config)) {e : PoolTask} (he : e ∈ m.world.pool) :
    TaskOwned m.world e := by
  obtain ⟨c, k, io, hk, hτ, hio, hfin, -⟩ := (owned_of_sound hsound m.trace).owner he
  obtain ⟨n, hat, hnk⟩ := at_of_cell hk
  have hn : n.task = some e.task := (congrArg Cell.task hnk).trans hτ
  have hcs := hstories.cell c _ hk
  have hc : io.coord = c := by
    rw [hcs.coord e.task io hτ hio, (hcs.scale hkey).1]
  exact ⟨io, _, n, hio, hfin, by rw [hc]; exact hat, hn⟩

/-- Two background tasks of one coordinate are the same entry of the pool. -/
theorem single_of_taskOwned {G : Guard} (hsound : Sound t G m.world)
    (howned : ∀ e ∈ m.world.pool, TaskOwned m.world e) {i j : Nat} {e f : PoolTask}
    {io io' : IOTask} (hi : m.world.pool[i]? = some e) (hj : m.world.pool[j]? = some f)
    (hio : m.world.tasks e.task = some io) (hio' : m.world.tasks f.task = some io')
    (hc : io.coord = io'.coord) : i = j := by
  obtain ⟨_, a, n, hioe, -, hat, hτ⟩ := howned e (List.mem_of_getElem? hi)
  obtain ⟨_, b, n', hiof, -, hat', hτ'⟩ := howned f (List.mem_of_getElem? hj)
  cases hio.symm.trans hioe
  cases hio'.symm.trans hiof
  rw [hc] at hat
  cases hat.find.symm.trans hat'.find
  cases hat.heap.symm.trans hat'.heap
  have hef : e.task = f.task := Option.some.inj (hτ.symm.trans hτ')
  exact hsound.holds.index_unique hi hj hef

structure NoStaleData (t : TypeData D) (db : NodeCoord → Option Bytes) (m : State D) : Prop where
  single : ∀ (i j : Nat) (e f : PoolTask) (io io' : IOTask), m.world.pool[i]? = some e → m.world.pool[j]? = some f →
    m.world.tasks e.task = some io → m.world.tasks f.task = some io' → io.coord = io'.coord →
    i = j
  owned : ∀ e ∈ m.world.pool, TaskOwned m.world e
  /-- The bytes of the most recent completed unload, or of the database as it was opened. -/
  deserialized : ∀ newer older a c i data, m.trace = newer ++ .deserialize a c i data :: older →
    (lastUnload c older).or (db c) = some data
  generated : ∀ newer older a c i, m.trace = newer ++ .generate a c i :: older →
    db c = none ∧ lastUnload c older = none ∧ ∀ data, .stored c data ∉ older

theorem no_stale_data (hl : t.localNode = true) (hkey : Keyed t db)
    (h : (worldMachine t db).Reach (fun _ l => ¬ StoreFails l) m) : NoStaleData t db m := by
  obtain ⟨hsound, hstories⟩ :=
    reach_stories hl storeWorks_checked (h.mono fun _ _ => storeWorks_admits)
  have howned : ∀ e ∈ m.world.pool, TaskOwned m.world e :=
    fun e he => taskOwned_of_stories hkey hsound hstories he
  have hjust : ∀ {newer older e}, m.trace = newer ++ e :: older →
      JustifiedEvent t db Guard.storeWorks older e := by
    intro newer older e htr
    have hsplit : Justified t db Guard.storeWorks (newer ++ e :: older) := by
      rw [← htr]
      exact hstories.justified
    exact hsplit.split
  refine ⟨?_, howned, ?_, ?_⟩
  · intro i j e f io io' hi hj hio hio' hc
    exact single_of_taskOwned hsound howned hi hj hio hio' hc
  · intro newer older a c i data htr
    exact hjust htr hkey
  · intro newer older a c i htr
    obtain ⟨hunload, hrecord⟩ := hjust htr hkey
    obtain ⟨hdb, hstored⟩ := record_eq_none hrecord
    rw [hdb, Option.or_none] at hunload
    exact ⟨hdb, hunload, hstored⟩

/-- The node of `loadRun` is unloaded and loaded again. -/
def reloadRun {D : Type} : List (Label D) :=
  loadRun ++ [.worldDoNodeUnloadCommands, .next 0 0, .perform 0 .ok, .finish 0] ++ passScales ++
    [.worldDoNodeUnloadCommands, .next 1 0] ++ passScales ++
    [.touchNode 0 ⟨0, 0, 0⟩ 30000 0, .worldDoNodeLoadCommands 30000, .next 0 0, .perform 0 .ok,
      .finish 0] ++ passScales ++ [.worldDoNodeLoadCommands 30001, .next 1 0]

theorem no_stale_data_reloadRun :
    ∃ m, (worldMachine Universe.universeType fun _ => none).exec (initial _ fun _ => none)
        reloadRun = some m ∧ NoStaleData Universe.universeType (fun _ => none) m := by
  obtain ⟨m, hm⟩ := Option.isSome_iff_exists.mp
    (show ((worldMachine Universe.universeType fun _ => none).exec (initial _ fun _ => none)
      reloadRun).isSome = true from by decide +kernel)
  have hkeyed : Keyed Universe.universeType fun _ => none :=
    universeType_keyed fun _ _ h => by cases h
  exact ⟨m, hm, no_stale_data rfl hkeyed (.exec (.init rfl) (by decide +kernel) hm)⟩

end CosmicArchitect.Spatial3D
