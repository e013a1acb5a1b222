import CosmicArchitect.Spatial3D.Runs
import CosmicArchitect.Universe.WorldTypes

/-!
# Task states and node states

A poll of an unfinished read loads the node, which leaves its task behind in task state
Idle. In runs without such a poll the two state fields and the task pointer agree.
-/

namespace CosmicArchitect.Spatial3D

variable {D : Type} {t : TypeData D} {db : NodeCoord → Option Serialize.Bytes} {m : State D}

/-- The task pointer agrees with the task state, and both with the state of the node. -/
structure Node.TaskStateAgrees (n : Node D) : Prop where
  task : n.task ≠ none ↔ n.taskState = .readInProgress ∨ n.taskState = .writeInProgress
  loading : n.state = .loading →
    n.taskState = .idle ∨ n.taskState = .readInProgress ∨ n.taskState = .readDone
  loaded : n.state = .loaded → n.taskState = .idle
  unloading : n.state = .unloading →
    n.taskState = .idle ∨ n.taskState = .writeInProgress ∨ n.taskState = .writeDone
  progress : n.state = .unloading → ¬ (n.taskState = .idle ∧ n.task ≠ none)

theorem taskStateAgrees_of_shape {n : Node D} (h : Shape False n.hold) : n.TaskStateAgrees := by
  cases hst : n.state <;> cases hts : n.taskState <;>
    simp [Shape, Node.hold, hst, hts] at h <;>
    constructor <;> simp [hst, hts, h]

def Guard.noUnfinishedRead : Guard := ⟨False, True, True, True⟩

theorem noUnfinishedRead_admits {m : State D} {l : Label D} (h : ¬ PollsUnfinishedRead m l) :
    Guard.noUnfinishedRead.Admits m l :=
  ⟨h, fun _ => trivial, fun _ => trivial, fun _ => trivial⟩

/-- In a run that never polls an unfinished read the states of every node agree. -/
theorem taskStates_agree
    (h : (worldMachine t db).Reach (fun m l => ¬ PollsUnfinishedRead m l) m) :
    ∀ a n, m.world.heap a = some n → n.TaskStateAgrees := by
  intro a n hn
  have hsound := sound_of_reach (h.mono fun _ _ hg => noUnfinishedRead_admits hg)
  exact taskStateAgrees_of_shape (hsound.holds.shape (hold_of_heap hn))

/-- The calls that walk over the 16 scales without polling a node. -/
def passScales {D : Type} : List (Label D) := List.replicate 17 (.next 1 0)

/- A node is created, read, loaded and marked for unloading; no poll meets an unfinished
   read. -/
def loadRun {D : Type} : List (Label D) :=
  [.touchNode 0 ⟨0, 0, 0⟩ 0 0, .worldDoNodeLoadCommands 0, .next 0 0, .perform 0 .ok, .finish 0] ++
    passScales ++ [.worldDoNodeLoadCommands 1, .next 1 0] ++ passScales ++
    [.worldDoNodeLoadCommands 2, .next 1 0] ++ passScales ++
    [.scaleUnloadUnutilizedNodes 0 20000 [⟨0, 0, 0⟩]]

theorem taskStates_agree_loadRun :
    ∃ m n, (worldMachine Universe.galaxyType fun _ => none).exec (initial _ fun _ => none)
      loadRun = some m ∧ m.world.heap 0 = some n ∧ n.TaskStateAgrees := by
  obtain ⟨n, hrun⟩ := Option.isSome_iff_exists.mp
    (show (((worldMachine Universe.galaxyType fun _ => none).exec (initial _ fun _ => none)
      loadRun).bind fun m => m.world.heap 0).isSome = true from by decide)
  obtain ⟨m, hm, hn⟩ := Option.bind_eq_some_iff.mp hrun
  exact ⟨m, n, hm, hn, taskStates_agree (.exec (.init rfl) (by decide +kernel) hm) 0 n hn⟩

/-- A node is created, its read handed to the pool, and polled again before it finished. -/
def earlyLoadRun {D : Type} : List (Label D) :=
  [.touchNode 0 ⟨0, 0, 0⟩ 0 0, .worldDoNodeLoadCommands 0, .next 0 0] ++ passScales ++
    [.worldDoNodeLoadCommands 1, .next 1 0]

/-- The node of `earlyLoadRun` is not touched again and gets unloaded. -/
def wedgeRun {D : Type} : List (Label D) :=
  earlyLoadRun ++ passScales ++ [.scaleUnloadUnutilizedNodes 0 20000 [⟨0, 0, 0⟩]]

/- The node is Loaded and owns its read in task state Idle; later it is Unloading in the
   state in which `ProgressNodeWriteTask` never does anything. -/
theorem earlyLoad_wedges :
    (∃ m a n, (worldMachine Universe.galaxyType fun _ => none).Reachable m ∧
      m.world.heap a = some n ∧ n.hold = ⟨.loaded, .idle, some 0⟩) ∧
    (∃ m a n, (worldMachine Universe.galaxyType fun _ => none).Reachable m ∧
      m.world.heap a = some n ∧ n.hold = ⟨.unloading, .idle, some 0⟩ ∧
      ¬ n.TaskStateAgrees) := by
  have hrun : ∀ ls k, ((worldMachine Universe.galaxyType fun _ => none).exec
      (initial _ fun _ => none) ls).bind (fun m => m.world.hold 0) = some k →
      ∃ m n, (worldMachine Universe.galaxyType fun _ => none).Reachable m ∧
        m.world.heap 0 = some n ∧ n.hold = k := by
    intro ls k h
    obtain ⟨m, hm, hk⟩ := Option.bind_eq_some_iff.mp h
    obtain ⟨n, hn, hnk⟩ := Option.map_eq_some_iff.mp hk
    exact ⟨m, n, Library.Machine.reachable_of_exec rfl hm, hn, hnk⟩
  obtain ⟨m, n, hr, hn, hh⟩ := hrun earlyLoadRun ⟨.loaded, .idle, some 0⟩ (by decide)
  obtain ⟨m', n', hr', hn', hh'⟩ := hrun wedgeRun ⟨.unloading, .idle, some 0⟩ (by decide)
  refine ⟨⟨m, 0, n, hr, hn, hh⟩, ⟨m', 0, n', hr', hn', hh', fun hagree => ?_⟩⟩
  have hst : n'.state = .unloading := congrArg Hold.state hh'
  have hts : n'.taskState = .idle := congrArg Hold.taskState hh'
  have htask : n'.task = some 0 := congrArg Hold.task hh'
  exact hagree.progress hst ⟨hts, by simp [htask]⟩

end CosmicArchitect.Spatial3D
