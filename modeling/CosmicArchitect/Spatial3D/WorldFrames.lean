import CosmicArchitect.Spatial3D.Runs

/-!
# One world through the frames (SpatialModule.cpp:105-161, UniverseSimulation.cpp:280-348)

`SimulationUpdate` runs `WorldUpdate` for every world, then `ScaleUpdate` for every scale in
any order, then the entity tasks and the module updates: `simulation::Update` reads the
clock, `spatial3d::Update` destroys worlds. Load and unload events, deferred commands and
`SimulationUnload` follow before the next frame. A frame of one world is a run of the world
machine; background tasks proceed at any time.
-/

namespace CosmicArchitect.Spatial3D
open Serialize

variable {D : Type}

/- `CLoader` of a registered entity. `sphere s` lists the coordinates for which
   `ForEachCoordInSphere` calls back at scale `s`. -/
structure Loader where
  minLod : Nat
  maxLod : Nat
  sphere : Nat → List Vector3i

/-- The coordinates `LoaderLoadNodes` touches (lines 643-658). -/
def Loader.loadNodes (loader : Loader) (s : Nat) : List Vector3i :=
  if s < loader.minLod ∨ loader.maxLod < s then [] else loader.sphere s

/-- The coordinates `ScaleLoadNodesAroundLoaders` touches, in order (lines 660-675). -/
def nodesAroundLoaders (loaders : List Loader) (s : Nat) : List Vector3i :=
  loaders.flatMap (·.loadNodes s)

inductive Phase
  | worldTask
  | unloadCommands
  | loadCommands
  | scaleTasks (left : List Nat)
  | moduleUpdates
  | spatialUpdate
  | events
  | destroyed
deriving DecidableEq, Repr

structure Frame (D : Type) where
  spatial : State D
  loaders : List Loader := []
  simulationUnloading : Bool := false
  frameStartTime : Int
  phase : Phase := .events

inductive FrameLabel (D : Type)
  | worldUpdate
  | next (fresh seed : Nat)
  | unloadCommandsDone
  | loadCommandsDone
  | scaleUpdate (s : Nat) (order : List Vector3i) (fresh : List Nat)
  | scaleTasksDone
  | simulationUpdate (now : Int)
  | spatialUpdate
  | setLoaders (loaders : List Loader)
  | unloadWorld
  | setSimulationUnloading (unloading : Bool)
  | editNode (s : Nat) (pos : Vector3i) (body : D)
  | nextFrame
  | perform (i : Nat) (outcome : Outcome)
  | finish (i : Nat)

/-- `TouchNode` for a list of coordinates, with the addresses `CreatePoly` would return. -/
def touchNodes (t : TypeData D) (s : Nat) (now : Int) :
    List (Vector3i × Nat) → State D → Option (State D)
  | [], m => some m
  | (pos, fresh) :: rest, m =>
    (step t m (.touchNode s pos now fresh)).bind (touchNodes t s now rest)

namespace Frame

def enter (m : Frame D) (phase : Phase) (spatial : State D) : Frame D :=
  { m with spatial := spatial, phase := phase }

/-- `ScaleUpdate` (lines 151-161). -/
def scaleUpdate (t : TypeData D) (m : Frame D) (s : Nat) (order : List Vector3i)
    (fresh : List Nat) : Option (State D) :=
  (step t m.spatial (.scaleUnloadUnutilizedNodes s m.frameStartTime order)).bind fun spatial =>
    if m.simulationUnloading then some spatial
    else touchNodes t s m.frameStartTime ((nodesAroundLoaders m.loaders s).zip fresh) spatial

end Frame

/-- One step of a frame; `none` when the label is not enabled. -/
def frameStep (t : TypeData D) (m : Frame D) : FrameLabel D → Option (Frame D)
  | .worldUpdate =>
    if m.phase = .worldTask then
      (step t m.spatial .worldDoNodeUnloadCommands).map (m.enter .unloadCommands)
    else none
  | .next fresh seed => (step t m.spatial (.next fresh seed)).map (m.enter m.phase)
  | .unloadCommandsDone =>
    if m.phase = .unloadCommands ∧ m.spatial.control = .idle then
      if m.simulationUnloading then
        some (m.enter (.scaleTasks (List.range t.maxScale)) m.spatial)
      else (step t m.spatial (.worldDoNodeLoadCommands m.frameStartTime)).map
        (m.enter .loadCommands)
    else none
  | .loadCommandsDone =>
    if m.phase = .loadCommands ∧ m.spatial.control = .idle then
      some (m.enter (.scaleTasks (List.range t.maxScale)) m.spatial)
    else none
  | .scaleUpdate s order fresh =>
    match m.phase with
    | .scaleTasks left =>
      if s ∈ left ∧ fresh.length = (nodesAroundLoaders m.loaders s).length then
        (m.scaleUpdate t s order fresh).map (m.enter (.scaleTasks (left.erase s)))
      else none
    | _ => none
  | .scaleTasksDone =>
    if m.phase = .scaleTasks [] then some (m.enter .moduleUpdates m.spatial) else none
  | .simulationUpdate now =>
    if m.phase = .moduleUpdates ∧ m.frameStartTime ≤ now then
      some { m with frameStartTime := now, phase := .spatialUpdate }
    else none
  | .spatialUpdate =>
    if m.phase = .spatialUpdate then
      if m.spatial.world.unloading ∧ worldGetNodeCount t m.spatial.world = 0 then
        some (m.enter .destroyed m.spatial)
      else some (m.enter .events m.spatial)
    else none
  | .setLoaders loaders =>
    if m.phase = .moduleUpdates ∨ m.phase = .events then some { m with loaders := loaders }
    else none
  | .unloadWorld =>
    if m.phase = .events then (step t m.spatial .unloadWorld).map (m.enter .events) else none
  | .setSimulationUnloading unloading =>
    if m.phase = .events then some { m with simulationUnloading := unloading } else none
  | .editNode s pos body => (step t m.spatial (.editNode s pos body)).map (m.enter m.phase)
  | .nextFrame => if m.phase = .events then some (m.enter .worldTask m.spatial) else none
  | .perform i outcome => (step t m.spatial (.perform i outcome)).map (m.enter m.phase)
  | .finish i => (step t m.spatial (.finish i)).map (m.enter m.phase)

/-- All runs of a world that was created by a load event at some frame time. -/
def frameMachine (t : TypeData D) (db : NodeCoord → Option Bytes) :
    Library.Machine (Frame D) (FrameLabel D) where
  init m := ∃ now, m = { spatial := initial D db, frameStartTime := now }
  step := frameStep t

variable {t : TypeData D} {db : NodeCoord → Option Bytes} {m m' : Frame D} {l : FrameLabel D}

/-! ### What one step of a frame does -/

/-- The calls that may happen in every phase. -/
def FrameLabel.call : FrameLabel D → Option (Label D)
  | .next fresh seed => some (.next fresh seed)
  | .editNode s pos body => some (.editNode s pos body)
  | .perform i outcome => some (.perform i outcome)
  | .finish i => some (.finish i)
  | _ => none

inductive FrameMove (t : TypeData D) (m : Frame D) : FrameLabel D → Frame D → Prop
  | call {l cl st} : l.call = some cl → step t m.spatial cl = some st →
      FrameMove t m l (m.enter m.phase st)
  | worldUpdate {st} : m.phase = .worldTask →
      step t m.spatial .worldDoNodeUnloadCommands = some st →
      FrameMove t m .worldUpdate (m.enter .unloadCommands st)
  | loadCommands {st} : m.phase = .unloadCommands → m.spatial.control = .idle →
      step t m.spatial (.worldDoNodeLoadCommands m.frameStartTime) = some st →
      FrameMove t m .unloadCommandsDone (m.enter .loadCommands st)
  | skipLoadCommands : m.phase = .unloadCommands → m.spatial.control = .idle →
      FrameMove t m .unloadCommandsDone (m.enter (.scaleTasks (List.range t.maxScale)) m.spatial)
  | loadCommandsDone : m.phase = .loadCommands → m.spatial.control = .idle →
      FrameMove t m .loadCommandsDone (m.enter (.scaleTasks (List.range t.maxScale)) m.spatial)
  | scaleUpdate {s order fresh left st} : m.phase = .scaleTasks left → s ∈ left →
      fresh.length = (nodesAroundLoaders m.loaders s).length →
      m.scaleUpdate t s order fresh = some st →
      FrameMove t m (.scaleUpdate s order fresh) (m.enter (.scaleTasks (left.erase s)) st)
  | scaleTasksDone : m.phase = .scaleTasks [] →
      FrameMove t m .scaleTasksDone (m.enter .moduleUpdates m.spatial)
  | simulationUpdate {now} : m.phase = .moduleUpdates → m.frameStartTime ≤ now →
      FrameMove t m (.simulationUpdate now)
        { m with frameStartTime := now, phase := .spatialUpdate }
  | destroyWorld : m.phase = .spatialUpdate → m.spatial.world.unloading = true →
      worldGetNodeCount t m.spatial.world = 0 →
      FrameMove t m .spatialUpdate (m.enter .destroyed m.spatial)
  | keepWorld : m.phase = .spatialUpdate →
      ¬ (m.spatial.world.unloading = true ∧ worldGetNodeCount t m.spatial.world = 0) →
      FrameMove t m .spatialUpdate (m.enter .events m.spatial)
  | setLoaders {loaders} : m.phase = .moduleUpdates ∨ m.phase = .events →
      FrameMove t m (.setLoaders loaders) { m with loaders := loaders }
  | unloadWorld {st} : m.phase = .events → step t m.spatial .unloadWorld = some st →
      FrameMove t m .unloadWorld (m.enter .events st)
  | setSimulationUnloading {unloading} : m.phase = .events →
      FrameMove t m (.setSimulationUnloading unloading)
        { m with simulationUnloading := unloading }
  | nextFrame : m.phase = .events → FrameMove t m .nextFrame (m.enter .worldTask m.spatial)

theorem frameStep_move (h : frameStep t m l = some m') : FrameMove t m l m' := by
  cases l with
  | next | editNode | perform | finish =>
    obtain ⟨st, hst, rfl⟩ := Option.map_eq_some_iff.mp h
    exact .call rfl hst
  | worldUpdate =>
    simp only [frameStep] at h
    split at h
    · next hp =>
      obtain ⟨st, hst, rfl⟩ := Option.map_eq_some_iff.mp h
      exact .worldUpdate hp hst
    · cases h
  | unloadCommandsDone =>
    simp only [frameStep] at h
    split at h
    · next hc =>
      split at h
      · cases h; exact .skipLoadCommands hc.1 hc.2
      · obtain ⟨st, hst, rfl⟩ := Option.map_eq_some_iff.mp h
        exact .loadCommands hc.1 hc.2 hst
    · cases h
  | loadCommandsDone =>
    simp only [frameStep] at h
    split at h
    · next hc => cases h; exact .loadCommandsDone hc.1 hc.2
    · cases h
  | scaleUpdate s order fresh =>
    simp only [frameStep] at h
    split at h
    · next left hp =>
      split at h
      · next hc =>
        obtain ⟨st, hst, rfl⟩ := Option.map_eq_some_iff.mp h
        exact .scaleUpdate hp hc.1 hc.2 hst
      · cases h
    · cases h
  | scaleTasksDone =>
    simp only [frameStep] at h
    split at h
    · next hp => cases h; exact .scaleTasksDone hp
    · cases h
  | simulationUpdate now =>
    simp only [frameStep] at h
    split at h
    · next hc => cases h; exact .simulationUpdate hc.1 hc.2
    · cases h
  | spatialUpdate =>
    simp only [frameStep] at h
    split at h
    · next hp =>
      split at h
      · next hc => cases h; exact .destroyWorld hp hc.1 hc.2
      · next hc => cases h; exact .keepWorld hp hc
    · cases h
  | setLoaders loaders =>
    simp only [frameStep] at h
    split at h
    · next hp => cases h; exact .setLoaders hp
    · cases h
  | unloadWorld =>
    simp only [frameStep] at h
    split at h
    · next hp =>
      obtain ⟨st, hst, rfl⟩ := Option.map_eq_some_iff.mp h
      exact .unloadWorld hp hst
    · cases h
  | setSimulationUnloading unloading =>
    simp only [frameStep] at h
    split at h
    · next hp => cases h; exact .setSimulationUnloading hp
    · cases h
  | nextFrame =>
    simp only [frameStep] at h
    split at h
    · next hp => cases h; exact .nextFrame hp
    · cases h

/-! ### A frame is a run of the world machine -/

theorem reachable_step {st st' : State D} {l : Label D} (hr : (worldMachine t db).Reachable st)
    (h : step t st l = some st') : (worldMachine t db).Reachable st' :=
  .step hr trivial h

theorem touchNodes_reachable {s : Nat} {now : Int} : ∀ {ps : List (Vector3i × Nat)}
    {st st' : State D}, (worldMachine t db).Reachable st → touchNodes t s now ps st = some st' →
      (worldMachine t db).Reachable st' := by
  intro ps
  induction ps with
  | nil =>
    intro st st' hr h
    cases Option.some.inj h
    exact hr
  | cons p ps ih =>
    intro st st' hr h
    obtain ⟨st₁, h₁, hrest⟩ := Option.bind_eq_some_iff.mp h
    exact ih (reachable_step hr h₁) hrest

/-- Every state of a frame holds a state of the world machine. -/
theorem spatial_reachable (h : (frameMachine t db).Reachable m) :
    (worldMachine t db).Reachable m.spatial := by
  refine h.invariant (I := fun m => (worldMachine t db).Reachable m.spatial) ?_ ?_
  · rintro m ⟨now, rfl⟩
    exact .init rfl
  · intro m l m' _ hr _ hstep
    cases frameStep_move hstep with
    | call _ hst => exact reachable_step hr hst
    | worldUpdate _ hst => exact reachable_step hr hst
    | loadCommands _ _ hst => exact reachable_step hr hst
    | unloadWorld _ hst => exact reachable_step hr hst
    | scaleUpdate _ _ _ hst =>
      obtain ⟨st₁, h₁, hrest⟩ := Option.bind_eq_some_iff.mp hst
      have hr₁ : (worldMachine t db).Reachable st₁ := reachable_step hr h₁
      split at hrest
      · cases hrest; exact hr₁
      · exact touchNodes_reachable hr₁ hrest
    | _ => exact hr

theorem frame_sound (h : (frameMachine t db).Reachable m) : Sound t Guard.any m.spatial.world :=
  sound_of_reach (reach_any (spatial_reachable h))

end CosmicArchitect.Spatial3D
