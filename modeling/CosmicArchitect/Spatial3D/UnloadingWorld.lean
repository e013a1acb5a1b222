import CosmicArchitect.Spatial3D.FrameSteps
import CosmicArchitect.Universe.WorldTypes

/-!
# An unloading world

`UnloadWorld` sets a flag that the sweeps read. The touches do not read it: `ScaleUpdate` goes
on to create nodes around the loaders of an unloading world as long as the simulation itself
is not unloading. `unloading_shrinks` says exactly when the set of nodes shrinks.
-/

namespace CosmicArchitect.Spatial3D
open Serialize

variable {D : Type} {t : TypeData D} {db : NodeCoord → Option Bytes} {m m' : Frame D}
  {l : FrameLabel D}

theorem Visit.isSome {now : Int} {x y : Option Stamp} (h : Visit now x y) (hy : y.isSome) :
    x.isSome := by
  cases h with
  | keep => exact hy
  | load => rfl
  | destroy => rfl

theorem Sweep.isSome {w : World D} {s s' : Nat} {now : Int} {x y : Option Stamp}
    (h : Sweep t w s now s' x y) : y.isSome = x.isSome := by
  cases h with
  | keep => rfl
  | mark _ _ => rfl

/-- The set of stored nodes does not grow in the step, and `spatial3d::Update` destroys the
world exactly when the set is empty. -/
structure Shrinks (m : Frame D) (l : FrameLabel D) (m' : Frame D) : Prop where
  nodes : ∀ s pos, m'.spatial.world.HasNode s pos → m.spatial.world.HasNode s pos
  destroyed : l = .spatialUpdate →
    (m'.phase = .destroyed ↔ ∀ s pos, ¬ m.spatial.world.HasNode s pos)

/-- A `ScaleUpdate` outside `SimulationUnload` finds a node at every coordinate of its scale
that a registered loader reaches. -/
def ReachesStored (m : Frame D) : FrameLabel D → Prop
  | .scaleUpdate s _ _ => m.simulationUnloading = false →
      ∀ pos ∈ nodesAroundLoaders m.loaders s, m.spatial.world.HasNode s pos
  | _ => True

theorem worldGetNodeCount_eq_zero {w : World D} (hw : Placed t w) :
    worldGetNodeCount t w = 0 ↔ ∀ s pos, ¬ w.HasNode s pos := by
  unfold worldGetNodeCount
  rw [List.sum_eq_zero_iff_forall_eq_nat]
  simp only [List.mem_map, List.mem_range, forall_exists_index, and_imp]
  constructor
  · intro h s pos hnode
    have hnil := h _ s (hw.hasNode_lt hnode) rfl
    have hkeys : pos ∈ (w.scales s).nodes := AList.lookup_isSome.mp hnode
    have hlen := List.length_eq_zero_iff.mp hnil
    rw [AList.mem_keys, AList.keys, hlen] at hkeys
    cases hkeys
  · rintro h n s - rfl
    rw [List.length_eq_zero_iff, List.eq_nil_iff_forall_not_mem]
    intro x hx
    exact h s x.1 (AList.lookup_isSome.mpr (List.mem_keys_of_mem hx))

/-- In an unloading world one step shrinks the set of nodes if and only if its loaders reach
stored nodes only. -/
theorem shrinks_iff (hr : (frameMachine t db).Reachable m)
    (hu : m.spatial.world.unloading = true) (h : frameStep t m l = some m') :
    Shrinks m l m' ↔ ReachesStored m l := by
  have hsound := frame_sound hr
  have hsound' : Sound t Guard.any m'.spatial.world := frame_sound (.step hr trivial h)
  by_cases hl : ∀ s order fresh, l ≠ .scaleUpdate s order fresh
  · have hguard : ReachesStored m l := by
      cases l with
      | scaleUpdate s order fresh => exact absurd rfl (hl s order fresh)
      | _ => trivial
    refine iff_of_true ⟨fun s pos hs => ?_, ?_⟩ hguard
    · rw [hsound'.hasNode_iff] at hs
      rw [hsound.hasNode_iff]
      exact (frame_visit hr h hl s pos).isSome hs
    · rintro rfl
      rw [← worldGetNodeCount_eq_zero hsound.placed]
      cases frameStep_move h with
      | call hcl _ => cases hcl
      | destroyWorld _ _ hzero => exact iff_of_true rfl hzero
      | keepWorld _ hkeep =>
        refine iff_of_false (by simp [Frame.enter]) fun hzero => hkeep ⟨hu, hzero⟩
  · simp only [not_forall, not_not] at hl
    obtain ⟨s, order, fresh, rfl⟩ := hl
    cases frameStep_move h with
    | call hcl _ => cases hcl
    | @scaleUpdate _ _ _ left st hp hs hfresh hst =>
      have hstamp := fun s' pos => (scaleUpdate_stamp hr hfresh hst s' pos).1
      have hnode : ∀ s' pos, st.world.HasNode s' pos ↔
          m.spatial.world.HasNode s' pos ∨ m.simulationUnloading = false ∧ s' = s ∧
            pos ∈ nodesAroundLoaders m.loaders s := by
        intro s' pos
        rw [Sound.hasNode_iff (w := st.world) hsound', hsound.hasNode_iff]
        obtain ⟨y, hsweep, hy⟩ := hstamp s' pos
        rw [hy, ← hsweep.isSome]
        split
        · next hc => simp [hc]
        · next hc => simp [hc]
      constructor
      · intro hshrinks hsim pos hpos
        exact hshrinks.nodes s pos ((hnode s pos).mpr (Or.inr ⟨hsim, rfl, hpos⟩))
      · intro hreach
        refine ⟨fun s' pos hs' => ?_, fun hne => by cases hne⟩
        rcases (hnode s' pos).mp hs' with hold | ⟨hsim, rfl, hpos⟩
        · exact hold
        · exact hreach hsim pos hpos

/-- From any state after `UnloadWorld`: the set of nodes shrinks in every step of a run, until
the world is destroyed, if and only if the loaders reach stored nodes only. -/
theorem unloading_shrinks (hr : (frameMachine t db).Reachable m)
    (hu : m.spatial.world.unloading = true) {ls : List (FrameLabel D)}
    (he : (frameMachine t db).exec m ls = some m') :
    (frameMachine t db).Follows
        (fun m l => ∀ m', (frameMachine t db).step m l = some m' → Shrinks m l m') m ls ↔
      (frameMachine t db).Follows ReachesStored m ls := by
  refine Library.Machine.follows_iff
    (I := fun m => (frameMachine t db).Reachable m ∧ m.spatial.world.unloading = true)
    ?_ ?_ ⟨hr, hu⟩ he
  · rintro m l m' ⟨hr, hu⟩ - h
    refine ⟨.step hr trivial h, ?_⟩
    rcases frame_unloading hr h with heq | ⟨-, hset⟩
    · exact heq.trans hu
    · exact hset
  · rintro m l m' ⟨hr, hu⟩ h
    have hiff := shrinks_iff hr hu h
    refine ⟨fun hall => hiff.mp (hall m' h), fun hreach m'' h' => ?_⟩
    cases h.symm.trans h'
    exact hiff.mpr hreach

instance (w : World D) (s : Nat) (pos : Vector3i) : Decidable (w.HasNode s pos) :=
  inferInstanceAs (Decidable (_ = true))

instance decidableReachesStored (m : Frame D) : (l : FrameLabel D) → Decidable (ReachesStored m l)
  | .scaleUpdate _ _ _ => inferInstanceAs (Decidable (_ → ∀ _ ∈ _, _))
  | .worldUpdate | .next _ _ | .unloadCommandsDone | .loadCommandsDone | .scaleTasksDone
  | .simulationUpdate _ | .spatialUpdate | .setLoaders _ | .unloadWorld
  | .setSimulationUnloading _ | .editNode _ _ _ | .nextFrame | .perform _ _ | .finish _ =>
    isTrue trivial

/-- A world after `UnloadWorld`, before its first frame. -/
def unloadedWorld (D : Type) (loaders : List Loader) : Frame D :=
  { createdWorld D with
    spatial := { world := { unloading := true } }
    loaders := loaders }

theorem unloadedWorld_reachable (loaders : List Loader) :
    (frameMachine t fun _ => none).Reachable (unloadedWorld D loaders) := by
  have hloaders : (frameMachine t fun _ => none).Reachable
      { createdWorld D with loaders := loaders } :=
    .step (l := .setLoaders loaders) (.init ⟨0, rfl⟩) trivial rfl
  exact .step (l := .unloadWorld) hloaders trivial rfl

/-- A node is created at the loader, and the world is unloaded while the node is loading. -/
def unloadedRun {D : Type} : List (FrameLabel D) :=
  .setLoaders [originLoader] :: frameRun [] [] 0 ++
    [.simulationUpdate 1000, .spatialUpdate, .unloadWorld]

/-- A frame in which the node is read and the loader reaches it again. -/
def readFrame {D : Type} : List (FrameLabel D) :=
  frameRun [.next 0 0, .perform 0 .ok, .finish 0] [⟨0, 0, 0⟩] 1 ++
    [.simulationUpdate 2000, .spatialUpdate]

theorem unloading_shrinks_readFrame :
    ∃ m m' : Frame Universe.UniverseNode,
      (frameMachine Universe.universeType fun _ => none).exec (createdWorld _) unloadedRun =
        some m ∧ m.loaders = [originLoader] ∧ m.spatial.world.HasNode 0 ⟨0, 0, 0⟩ ∧
      (frameMachine Universe.universeType fun _ => none).exec m readFrame = some m' ∧
      (frameMachine Universe.universeType fun _ => none).Follows
        (fun m l => ∀ m', (frameMachine Universe.universeType fun _ => none).step m l = some m' →
          Shrinks m l m') m readFrame := by
  have hrun : ((frameMachine Universe.universeType fun _ => none).exec (createdWorld _)
      unloadedRun).any (fun m => decide (m.spatial.world.HasNode 0 ⟨0, 0, 0⟩) &&
        (m.spatial.world.unloading && decide ((frameMachine Universe.universeType
          fun _ => none).Follows ReachesStored m readFrame) &&
          ((frameMachine Universe.universeType fun _ => none).exec m readFrame).isSome)) = true := by
    decide +kernel
  obtain ⟨m, hm, hall⟩ := (Option.any_eq_true _ _).mp hrun
  obtain ⟨hnode, hall⟩ := Bool.and_eq_true_iff.mp hall
  obtain ⟨hall, hsome⟩ := Bool.and_eq_true_iff.mp hall
  obtain ⟨hunloading, hfollows⟩ := Bool.and_eq_true_iff.mp hall
  obtain ⟨m', hm'⟩ := Option.isSome_iff_exists.mp hsome
  have hloaders : ((frameMachine Universe.universeType fun _ => none).exec (createdWorld _)
      unloadedRun).map (·.loaders) = some [originLoader] := rfl
  rw [hm] at hloaders
  have hreachable := Library.Machine.reachable_of_exec
    (M := frameMachine Universe.universeType fun _ => none) ⟨0, rfl⟩ hm
  exact ⟨m, m', hm, Option.some.inj hloaders, of_decide_eq_true hnode, hm',
    (unloading_shrinks hreachable hunloading hm').mpr (of_decide_eq_true hfollows)⟩

/-- With a loader nearby the frame after `UnloadWorld` adds a node. -/
theorem unloading_world_grows :
    ∃ m m' : Frame Universe.UniverseNode,
      (frameMachine Universe.universeType fun _ => none).Reachable m ∧
      m.spatial.world.unloading = true ∧
      (frameMachine Universe.universeType fun _ => none).exec m (frameRun [] [] 0) = some m' ∧
      ¬ m.spatial.world.HasNode 0 ⟨0, 0, 0⟩ ∧ m'.spatial.world.HasNode 0 ⟨0, 0, 0⟩ := by
  have hrun : ((frameMachine Universe.universeType fun _ => none).exec
      (unloadedWorld _ [originLoader]) (frameRun [] [] 0)).any
        (fun m => decide (m.spatial.world.HasNode 0 ⟨0, 0, 0⟩)) = true := by decide +kernel
  obtain ⟨m', hm', hnode⟩ := (Option.any_eq_true _ _).mp hrun
  exact ⟨_, m', unloadedWorld_reachable [originLoader], rfl, hm', by decide,
    of_decide_eq_true hnode⟩

end CosmicArchitect.Spatial3D
