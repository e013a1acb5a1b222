import CosmicArchitect.Spatial3D.LinksAgree
import CosmicArchitect.Spatial3D.LoadedInRange
import CosmicArchitect.Spatial3D.UnloadingWorld

/-!
# The memory of a world (SpatialWorld.cpp:312-330, SpatialModule.cpp:105-134)

`Holding` says that an owned IO task is allocated. Here is the converse: every IO task that
is allocated is owned, so nothing leaks. `spatial3d::Update` destroys a world whose scales
have no nodes left. At that moment nothing of the world is allocated any more and no
background task is left that could use its database.
-/

namespace CosmicArchitect.Spatial3D
open Serialize

variable {D : Type}

/-! ### Every task has an owner -/

/-- The IO task of the node at address `a`. -/
def World.taskAt (w : World D) (a : Nat) : Option Nat := (w.hold a).bind Hold.task

/-- Every IO task that is allocated is the task of some node. -/
def AllOwned (taskAt : Nat → Option Nat) (tasks : Nat → Option IOTask) : Prop :=
  ∀ τ, (tasks τ).isSome → ∃ a, taskAt a = some τ

namespace AllOwned
variable {taskAt : Nat → Option Nat} {tasks : Nat → Option IOTask} {a τ : Nat}

theorem start (h : AllOwned taskAt tasks) (ha : taskAt a = none) (io : Option IOTask) :
    AllOwned (Function.update taskAt a (some τ)) (Function.update tasks τ io) := by
  intro σ hσ
  by_cases hne : σ = τ
  · exact ⟨a, by rw [hne, Function.update_self]⟩
  · rw [Function.update_of_ne hne] at hσ
    obtain ⟨b, hb⟩ := h σ hσ
    have hba : b ≠ a := by
      rintro rfl
      rw [ha] at hb
      cases hb
    exact ⟨b, by rw [Function.update_of_ne hba, hb]⟩

theorem release (h : AllOwned taskAt tasks) (ha : taskAt a = some τ) :
    AllOwned (Function.update taskAt a none) (Function.update tasks τ none) := by
  intro σ hσ
  have hne : σ ≠ τ := by
    rintro rfl
    rw [Function.update_self] at hσ
    cases hσ
  rw [Function.update_of_ne hne] at hσ
  obtain ⟨b, hb⟩ := h σ hσ
  have hba : b ≠ a := by
    rintro rfl
    exact hne (Option.some.inj (hb.symm.trans ha))
  exact ⟨b, by rw [Function.update_of_ne hba, hb]⟩

theorem write (h : AllOwned taskAt tasks) (hτ : (tasks τ).isSome) (io : Option IOTask) :
    AllOwned taskAt (Function.update tasks τ io) := by
  intro σ hσ
  by_cases hne : σ = τ
  · exact h σ (by rw [hne]; exact hτ)
  · rw [Function.update_of_ne hne] at hσ
    exact h σ hσ

end AllOwned

/-- No IO task of the world leaks. -/
def World.NoLeak (w : World D) : Prop := AllOwned w.taskAt w.tasks

section
variable {w w' : World D} {a τ : Nat} {n : Node D}

theorem taskAt_of_heap (hn : w.heap a = some n) : w.taskAt a = n.task := by
  rw [World.taskAt, hold_of_heap hn]
  rfl

theorem taskAt_of_hold (h : w'.hold = w.hold) : w'.taskAt = w.taskAt := by
  funext b
  rw [World.taskAt, World.taskAt, h]

theorem taskAt_modify (hn : w.heap a = some n) (f : Node D → Node D) :
    (w.modify a f).taskAt = Function.update w.taskAt a (f n).task := by
  funext b
  rw [World.taskAt, hold_modify hn f]
  by_cases hb : b = a
  · rw [hb, Function.update_self, Function.update_self]
    rfl
  · rw [Function.update_of_ne hb, Function.update_of_ne hb]
    rfl

/-- A write that keeps the task of the node. -/
theorem taskAt_modify_keep (hn : w.heap a = some n) {f : Node D → Node D}
    (hf : (f n).task = n.task) : (w.modify a f).taskAt = w.taskAt := by
  rw [taskAt_modify hn f, hf, ← taskAt_of_heap hn, Function.update_eq_self]

theorem noLeak_of_eq (h : w.NoLeak) (ht : w'.taskAt = w.taskAt) (hτ : w'.tasks = w.tasks) :
    w'.NoLeak := by
  unfold World.NoLeak
  rw [ht, hτ]
  exact h

theorem noLeak_start (h : w.NoLeak) (hn : w.heap a = some n) (hnone : n.task = none)
    {f : Node D → Node D} (hf : (f n).task = some τ) {kind : IOKind} {io : IOTask} :
    ((w.addNativeTask kind τ io).modify a f).NoLeak := by
  have hstart := AllOwned.start (τ := τ) h ((taskAt_of_heap hn).trans hnone) (some io)
  unfold World.NoLeak
  rw [taskAt_modify (w := w.addNativeTask kind τ io) hn f, hf]
  exact hstart

theorem noLeak_release (h : w.NoLeak) (hn : w.heap a = some n) (hτ : n.task = some τ)
    {f : Node D → Node D} (hf : (f n).task = none) : ((w.freeTask τ).modify a f).NoLeak := by
  have hrelease := AllOwned.release h ((taskAt_of_heap hn).trans hτ)
  unfold World.NoLeak
  rw [taskAt_modify (w := w.freeTask τ) hn f, hf]
  exact hrelease

/-- `DestroyPoly` of a node frees no task when the node has none. -/
theorem noLeak_destroy {t : TypeData D} (h : w.NoLeak) (s it : Nat) (pos : Vector3i)
    (hn : w.heap a = some n) (hnone : n.task = none) :
    ((finishUnload t s w a pos).eraseUnloading s it).NoLeak := by
  obtain ⟨hhold, htasks, -⟩ := finishUnload_tasks t s pos hn hnone
  refine noLeak_of_eq h (funext fun b => ?_) htasks
  show ((finishUnload t s w a pos).hold b).bind Hold.task = w.taskAt b
  rw [hhold]
  by_cases hb : b = a
  · rw [hb, Function.update_self, taskAt_of_heap hn, hnone]
    rfl
  · rw [Function.update_of_ne hb]
    rfl

end

section
variable {t : TypeData D} {G : Guard}

theorem noLeak_initial (db : NodeCoord → Option Bytes) : (initial D db).world.NoLeak := by
  intro τ hτ
  cases hτ

theorem effect_noLeak {c c' : World D × List Event} (hs : Sound t G c.1) (h : c.1.NoLeak)
    (he : Effect t G c c') : c'.1.NoLeak := by
  cases he with
  | touch now hat => exact noLeak_of_eq h (taskAt_modify_keep hat.heap rfl) rfl
  | edit body hat => exact noLeak_of_eq h (taskAt_modify_keep hat.heap rfl) rfl
  | @create w _ s pos a now _ _ ha =>
    refine noLeak_of_eq h (funext fun b => ?_) rfl
    by_cases hb : b = a
    · simp only [hb, World.taskAt, World.create, World.hold, World.heap_setScale,
        Function.update_self, ha]
      rfl
    · simp only [World.taskAt, World.create, World.hold, World.heap_setScale,
        Function.update_of_ne hb]
  | @mark w _ s pos a n hat _ =>
    have hkeep : (w.modify a fun n => { n with state := .unloading }).taskAt = w.taskAt :=
      taskAt_modify_keep hat.heap rfl
    exact noLeak_of_eq h hkeep rfl
  | unloadWorld => exact h
  | startRead hat _ _ _ hnone _ => exact noLeak_start h hat.heap hnone rfl
  | finishRead seed hat _ _ _ hτ _ _ _ => exact noLeak_release h hat.heap hτ rfl
  | @load w _ s it pos a n now _ _ hat _ _ =>
    have hcore := core_finishLoad t s a n.position now w
    have hhold : (finishLoad t s now w a n.position).hold =
        (w.modify a (Node.afterLoad t now)).hold := (hold_of_core hcore).trans rfl
    have hload : (finishLoad t s now w a n.position).NoLeak :=
      noLeak_of_eq h ((taskAt_of_hold hhold).trans (taskAt_modify_keep hat.heap rfl))
        (tasks_of_core hcore).1
    exact noLeak_of_eq hload rfl rfl
  | startWrite hat _ _ _ hnone _ => exact noLeak_start h hat.heap hnone rfl
  | @destroy _ _ s it pos a n _ _ hat hst hready =>
    refine noLeak_destroy h s it n.position hat.heap ?_
    have hshape := hs.holds.shape (hold_of_heap hat.heap)
    by_cases hl : t.localNode = true
    · simpa [Shape, Node.hold, hst, hready hl] using hshape
    · exact (hs.holds.remote (by simpa using hl) (hold_of_heap hat.heap)).1
  | @destroyWritten _ _ s it pos a n τ io _ _ hat _ _ _ hτ _ _ _ =>
    have hwritten : World.NoLeak (World.finishWrite _ a τ) := noLeak_release h hat.heap hτ rfl
    exact noLeak_destroy hwritten s it n.position (at_finishWrite hat).heap rfl
  | performRead outcome _ _ _ hio _ _ => exact AllOwned.write h (by rw [hio]; rfl) _
  | performWrite outcome _ _ _ hio _ _ => exact AllOwned.write h (by rw [hio]; rfl) _
  | finish _ _ hio => exact AllOwned.write h (by rw [hio]; rfl) _

theorem reach_noLeak {db : NodeCoord → Option Bytes} {m : State D}
    (h : (worldMachine t db).Reachable m) : m.world.NoLeak :=
  (reach_invariant (I := fun c => c.1.NoLeak) (noLeak_initial db)
    (fun hs hc he => effect_noLeak hs hc he) (reach_any h)).2

end

/-! ### The frames of a world -/

section
variable {t : TypeData D} {db : NodeCoord → Option Bytes} {m m' : Frame D}

theorem step_control {st st' : State D} {l : Label D} (hne : ¬ st'.Failed)
    (hidle : st.control = .idle) (h : step t st l = some st')
    (hl : l ≠ .worldDoNodeUnloadCommands ∧ ∀ now, l ≠ .worldDoNodeLoadCommands now) :
    st'.control = .idle := by
  cases l with
  | touchNode s pos now fresh =>
    simp only [step] at h
    split at h
    · split at h
      · cases h; exact absurd ⟨_, rfl⟩ hne
      · cases h; rfl
    · cases h
  | editNode s pos body =>
    simp only [step, if_pos hidle] at h
    obtain ⟨a, -, rfl⟩ := Option.map_eq_some_iff.mp h
    exact hidle
  | scaleUnloadUnutilizedNodes s now order =>
    simp only [step] at h
    split at h
    · cases h; exact hidle
    · cases h
  | unloadWorld =>
    simp only [step, if_pos hidle] at h
    cases h
    exact hidle
  | worldDoNodeLoadCommands now => exact absurd rfl (hl.2 now)
  | worldDoNodeUnloadCommands => exact absurd rfl hl.1
  | next fresh seed =>
    simp only [step, hidle] at h
    split at h <;> cases h
  | perform i outcome =>
    simp only [step] at h
    split at h
    · split at h
      · cases h
        unfold perform at hne ⊢
        split at hne
        · exact absurd ⟨_, rfl⟩ hne
        · next io hio => exact hidle
      · cases h
    · cases h
  | finish i =>
    simp only [step] at h
    split at h
    · split at h
      · cases h
        unfold finish at hne ⊢
        split at hne
        · exact absurd ⟨_, rfl⟩ hne
        · next io hio => exact hidle
      · cases h
    · cases h

/-- In the frame no command loop runs outside `WorldUpdate`. -/
def Phase.RunsCommands : Phase → Prop
  | .unloadCommands | .loadCommands => True
  | _ => False

theorem frame_not_failed (h : (frameMachine t db).Reachable m) : ¬ m.spatial.Failed :=
  reach_not_failed (reach_any (spatial_reachable h))

theorem touchNodes_control {s : Nat} {now : Int} : ∀ {ps : List (Vector3i × Nat)}
    {st st' : State D}, (worldMachine t db).Reachable st → st.control = .idle →
      touchNodes t s now ps st = some st' → st'.control = .idle := by
  intro ps
  induction ps with
  | nil =>
    intro st st' _ hidle h
    cases Option.some.inj h
    exact hidle
  | cons p ps ih =>
    intro st st' hr hidle h
    obtain ⟨st₁, h₁, hrest⟩ := Option.bind_eq_some_iff.mp h
    have hr₁ := reachable_step hr h₁
    exact ih hr₁ (step_control (reach_not_failed (reach_any hr₁)) hidle h₁ (by simp)) hrest

theorem control_of_phase (h : (frameMachine t db).Reachable m) (hp : ¬ m.phase.RunsCommands) :
    m.spatial.control = .idle := by
  refine h.invariant (I := fun m => ¬ m.phase.RunsCommands → m.spatial.control = .idle) ?_ ?_ hp
  · rintro m ⟨now, rfl⟩ _
    rfl
  · intro m l m' hr ih _ hstep hp
    have hreach := spatial_reachable hr
    have hnext : ∀ {st : State D} {l : Label D}, step t m.spatial l = some st → ¬ st.Failed :=
      fun hst => reach_not_failed (reach_any (reachable_step hreach hst))
    cases frameStep_move hstep with
    | @call l cl st hcl hst =>
      refine step_control (hnext hst) (ih hp) hst ?_
      cases l <;> cases hcl <;> simp
    | worldUpdate => exact absurd trivial hp
    | loadCommands => exact absurd trivial hp
    | skipLoadCommands _ hc => exact hc
    | loadCommandsDone _ hc => exact hc
    | scaleUpdate hphase _ _ hst =>
      have hidle := ih (by rw [hphase]; exact id)
      obtain ⟨st₁, h₁, hrest⟩ := Option.bind_eq_some_iff.mp hst
      have hidle₁ := step_control (hnext h₁) hidle h₁ (by simp)
      split at hrest
      · cases hrest; exact hidle₁
      · exact touchNodes_control (reachable_step hreach h₁) hidle₁ hrest
    | scaleTasksDone hphase => exact ih (by rw [hphase]; exact id)
    | simulationUpdate hphase _ => exact ih (by rw [hphase]; exact id)
    | destroyWorld hphase _ _ => exact ih (by rw [hphase]; exact id)
    | keepWorld hphase _ => exact ih (by rw [hphase]; exact id)
    | setLoaders hphase => exact ih hp
    | unloadWorld hphase hst =>
      exact step_control (hnext hst) (ih (by rw [hphase]; exact id)) hst (by simp)
    | setSimulationUnloading hphase => exact ih hp
    | nextFrame hphase => exact ih (by rw [hphase]; exact id)

theorem frame_noLeak (h : (frameMachine t db).Reachable m) : m.spatial.world.NoLeak :=
  reach_noLeak (spatial_reachable h)

end

/-! ### What is allocated -/

/-- The blocks of a world: every stored pointer is a live node, every node is stored under one
coordinate, every IO task is the task of one node, and the pool holds unfinished tasks that
are allocated, each once. -/
structure World.MemoryExact (w : World D) : Prop where
  stored : ∀ s pos v, w.find s pos = some v → ∃ a n, v = some a ∧ w.heap a = some n
  nodes : ∀ a n, w.heap a = some n →
    ∃! c : NodeCoord, w.find c.scaleIndex c.position = some (some a)
  live : ∀ a n τ, w.heap a = some n → n.task = some τ → ∃ io, w.tasks τ = some io
  owned : ∀ τ io, w.tasks τ = some io → ∃! a, ∃ n, w.heap a = some n ∧ n.task = some τ
  pool : ∀ e ∈ w.pool, ∃ io, w.tasks e.task = some io ∧ io.finished = false
  nodup : (w.pool.map PoolTask.task).Nodup

theorem taskAt_eq_some {w : World D} {a τ : Nat} :
    w.taskAt a = some τ ↔ ∃ n, w.heap a = some n ∧ n.task = some τ := by
  unfold World.taskAt World.hold
  cases w.heap a with
  | none => simp
  | some n => simp [Node.hold]

section
variable {t : TypeData D} {G : Guard} {w : World D}

theorem memoryExact (hs : Sound t G w) (hl : w.NoLeak) : w.MemoryExact where
  stored s pos v hv := by
    obtain ⟨a, n, rfl, hat⟩ := hs.find hv
    exact ⟨a, n, rfl, hat.heap⟩
  nodes a n hn := by
    obtain ⟨s, hfind⟩ := hs.placed.stored (place_of_heap hn)
    refine ⟨⟨n.position, s⟩, hfind, ?_⟩
    rintro ⟨pos, s'⟩ (hc : w.find s' pos = some (some a))
    have hat : w.At s' pos a n := ⟨hc, hn⟩
    rw [hs.placed.inj hc hfind, hs.placed.position hat]
  live a n τ hn hτ := hs.holds.live (hold_of_heap hn) hτ
  owned τ io hio := by
    obtain ⟨a, ha⟩ := hl τ (by rw [hio]; rfl)
    refine ⟨a, taskAt_eq_some.mp ha, ?_⟩
    rintro b ⟨k, hk, hkτ⟩
    obtain ⟨n, hn, hnτ⟩ := taskAt_eq_some.mp ha
    exact hs.holds.exclusive (hold_of_heap hk) (hold_of_heap hn) hkτ hnτ
  pool e he := by
    obtain ⟨-, -, io, -, -, hio, hfin, -⟩ := hs.holds.owner he
    exact ⟨io, hio, hfin⟩
  nodup := hs.holds.nodup

/-- The assertions of `DestroyWorld`. -/
def DestroyWorldAsserts (t : TypeData D) (w : World D) : Prop :=
  ∀ s < t.maxScale, (w.scales s).nodes.entries = [] ∧ (w.scales s).loadingNodes = [] ∧
    (w.scales s).unloadingNodes = []

/-- Nothing of the world is allocated but its scales and itself. -/
structure World.Released (t : TypeData D) (w : World D) : Prop where
  asserts : DestroyWorldAsserts t w
  stored : ∀ s pos, w.find s pos = none
  nodes : ∀ a, w.heap a = none
  tasks : ∀ τ, w.tasks τ = none
  pool : w.pool = []

theorem released_of_count (hs : Sound t G w) (hl : w.NoLeak) (h : worldGetNodeCount t w = 0) :
    w.Released t := by
  have hfind : ∀ s pos, w.find s pos = none := fun s pos => by
    simpa [World.HasNode] using (worldGetNodeCount_eq_zero hs.placed).mp h s pos
  have hnodes : ∀ a, w.heap a = none := by
    intro a
    by_contra hne
    obtain ⟨n, hn⟩ := Option.ne_none_iff_exists'.mp hne
    obtain ⟨s, hlookup⟩ := hs.placed.stored (place_of_heap hn)
    cases (hfind s n.position).symm.trans hlookup
  have htasks : ∀ τ, w.tasks τ = none := by
    intro τ
    by_contra hne
    obtain ⟨a, ha⟩ := hl τ (Option.isSome_iff_ne_none.mpr hne)
    obtain ⟨n, hn, -⟩ := taskAt_eq_some.mp ha
    cases (hnodes a).symm.trans hn
  refine ⟨fun s _ => ⟨?_, ?_, ?_⟩, hfind, hnodes, htasks, ?_⟩
  · rw [List.eq_nil_iff_forall_not_mem]
    intro x hx
    have hsome : (w.find s x.1).isSome :=
      AList.lookup_isSome.mpr (List.mem_keys_of_mem hx)
    rw [hfind] at hsome
    cases hsome
  · rw [List.eq_nil_iff_forall_not_mem]
    intro pos hpos
    obtain ⟨a, ha, -⟩ := (hs.placed.loading s pos).mp hpos
    cases (hfind s pos).symm.trans ha
  · rw [List.eq_nil_iff_forall_not_mem]
    intro pos hpos
    obtain ⟨a, ha, -⟩ := (hs.placed.unloading s pos).mp hpos
    cases (hfind s pos).symm.trans ha
  · rw [List.eq_nil_iff_forall_not_mem]
    intro e he
    obtain ⟨-, -, io, -, -, hio, -⟩ := hs.holds.owner he
    cases (htasks e.task).symm.trans hio

end

section
variable {t : TypeData D} {db : NodeCoord → Option Bytes} {m m' : Frame D}

/-- In every state of every run the memory of the world is exact, no call so far touched a null or
freed block, and every link that the next call follows leads to a stored node. -/
theorem world_memory_exact (h : (frameMachine t db).Reachable m) :
    ¬ m.spatial.Failed ∧ m.spatial.world.MemoryExact ∧ m.spatial.world.LinksAgree :=
  ⟨frame_not_failed h, memoryExact (frame_sound h) (frame_noLeak h),
    (reach_linked (spatial_reachable h)).linksAgree⟩

theorem world_memory_exact_inRangeRun :
    ∃ m : Frame Universe.UniverseNode,
      (frameMachine Universe.universeType fun _ => none).exec (createdWorld _) inRangeRun =
        some m ∧ (m.spatial.world.heap 0).isSome ∧ ¬ m.spatial.Failed ∧
      m.spatial.world.MemoryExact ∧ m.spatial.world.LinksAgree := by
  have hrun : ((frameMachine Universe.universeType fun _ => none).exec (createdWorld _)
      inRangeRun).any (fun m => (m.spatial.world.heap 0).isSome) = true := by decide +kernel
  obtain ⟨m, hm, hnode⟩ := (Option.any_eq_true _ _).mp hrun
  exact ⟨m, hm, hnode, world_memory_exact (Library.Machine.reachable_of_exec ⟨0, rfl⟩ hm)⟩

theorem released_stuck (hp : m.phase = .destroyed) (hc : m.spatial.control = .idle)
    (hw : m.spatial.world.Released t) (l : FrameLabel D) : frameStep t m l = none := by
  have hpool : ∀ i : Nat, m.spatial.world.pool[i]? = none := fun i => by rw [hw.pool]; rfl
  cases l with
  | next fresh seed =>
    have hnone : step t m.spatial (.next fresh seed) = none := by
      simp only [step, hc]
      split <;> rfl
    exact Option.map_eq_none_iff.mpr hnone
  | editNode s pos body =>
    refine Option.map_eq_none_iff.mpr ?_
    simp only [step, if_pos hc, hw.stored, Option.join_none, Option.map_none]
  | perform i outcome =>
    refine Option.map_eq_none_iff.mpr ?_
    simp only [step, hpool]
  | finish i =>
    refine Option.map_eq_none_iff.mpr ?_
    simp only [step, hpool]
  | scaleUpdate s order fresh => simp only [frameStep, hp]
  | worldUpdate | unloadCommandsDone | loadCommandsDone | scaleTasksDone | simulationUpdate
  | spatialUpdate | setLoaders | unloadWorld | setSimulationUnloading | nextFrame =>
    simp [frameStep, hp]

/-- `spatial3d::Update` destroys a world only when there is nothing left of it. -/
theorem count_of_destroyed (h : (frameMachine t db).Reachable m) (hd : m.phase = .destroyed) :
    worldGetNodeCount t m.spatial.world = 0 := by
  refine h.invariant (I := fun m => m.phase = .destroyed →
    worldGetNodeCount t m.spatial.world = 0) ?_ ?_ hd
  · rintro m ⟨now, rfl⟩ hd
    cases hd
  · intro m l m' hr ih _ hstep hd
    by_cases hm : m.phase = .destroyed
    · have hstuck := released_stuck hm (control_of_phase hr (by rw [hm]; exact id))
        (released_of_count (frame_sound hr) (frame_noLeak hr) (ih hm)) l
      cases hstuck.symm.trans hstep
    · cases frameStep_move hstep with
      | destroyWorld _ _ hcount => exact hcount
      | call => exact absurd hd hm
      | setLoaders => exact absurd hd hm
      | setSimulationUnloading => exact absurd hd hm
      | _ => cases hd

/-- The destroyed world had nothing left to release, and no step is taken in it any more. -/
theorem destroyed_released (h : (frameMachine t db).Reachable m) (hd : m.phase = .destroyed) :
    m.spatial.world.Released t ∧ ∀ l, frameStep t m l = none := by
  have hw : m.spatial.world.Released t :=
    released_of_count (frame_sound h) (frame_noLeak h) (count_of_destroyed h hd)
  exact ⟨hw, released_stuck hd (control_of_phase h (by rw [hd]; exact id)) hw⟩

/-- `ScaleUpdate` for all 16 scales of a world without loaders. -/
def scalesRun (order : List Vector3i) : List (FrameLabel D) :=
  .scaleUpdate 0 order [] :: (List.range 15).map (fun s => .scaleUpdate (s + 1) [] []) ++
    [.scaleTasksDone]

/-- The world is unloaded while its node is loaded; the node is written and destroyed. -/
def closedRun : List (FrameLabel D) :=
  inRangeRun ++ [.simulationUpdate 3100, .spatialUpdate, .setLoaders [], .unloadWorld] ++
    worldUpdateRun [] ++ scalesRun [⟨0, 0, 0⟩] ++
    [.simulationUpdate 3200, .spatialUpdate, .nextFrame, .worldUpdate, .next 1 0] ++
    .replicate 17 (.next 2 0) ++ [.unloadCommandsDone] ++ .replicate 17 (.next 2 0) ++
    .loadCommandsDone :: scalesRun [⟨0, 0, 0⟩] ++
    [.perform 0 .ok, .finish 0, .simulationUpdate 3300, .spatialUpdate, .nextFrame,
      .worldUpdate] ++ .replicate 18 (.next 2 0) ++ [.unloadCommandsDone] ++
    .replicate 17 (.next 2 0) ++ .loadCommandsDone :: scalesRun [] ++
    [.simulationUpdate 3400, .spatialUpdate]

theorem destroyed_released_closedRun :
    ∃ m : Frame Universe.UniverseNode,
      (frameMachine Universe.universeType fun _ => none).exec (createdWorld _) closedRun =
        some m ∧ m.phase = .destroyed ∧ m.spatial.world.Released Universe.universeType ∧
      ∀ l, frameStep Universe.universeType m l = none := by
  have hrun : ((frameMachine Universe.universeType fun _ => none).exec (createdWorld _)
      closedRun).any (fun m => decide (m.phase = .destroyed)) = true := by decide +kernel
  obtain ⟨m, hm, hd⟩ := (Option.any_eq_true _ _).mp hrun
  exact ⟨m, hm, of_decide_eq_true hd,
    destroyed_released (Library.Machine.reachable_of_exec ⟨0, rfl⟩ hm) (of_decide_eq_true hd)⟩

end

end CosmicArchitect.Spatial3D
