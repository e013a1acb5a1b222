import CosmicArchitect.Spatial3D.Runs
import CosmicArchitect.Universe.WorldTypes

/-!
# Command lists and node states

The two command lists of a scale hold exactly the positions of its Loading and Unloading
nodes, each once, in every state of every run.
-/

namespace CosmicArchitect.Spatial3D

variable {D : Type} {t : TypeData D} {db : NodeCoord → Option Serialize.Bytes} {m : State D}

/-- The map of scale `s` holds a node in state `st` at `pos`. -/
def World.HoldsNode (w : World D) (s : Nat) (pos : Vector3i) (st : NodeState) : Prop :=
  ∃ a n, w.At s pos a n ∧ n.state = st

/- `loading_nodes` and `unloading_nodes` agree with the node map of their scale; the last
   field is what `DestroyWorld` asserts. -/
structure World.CommandListsAgree (w : World D) : Prop where
  loading : ∀ s pos, (w.scales s).loadingNodes.count pos = 1 ↔ w.HoldsNode s pos .loading
  noLoading : ∀ s pos, (w.scales s).loadingNodes.count pos = 0 ↔ ¬ w.HoldsNode s pos .loading
  unloading : ∀ s pos, (w.scales s).unloadingNodes.count pos = 1 ↔ w.HoldsNode s pos .unloading
  noUnloading : ∀ s pos,
    (w.scales s).unloadingNodes.count pos = 0 ↔ ¬ w.HoldsNode s pos .unloading
  noNull : ∀ s pos, w.find s pos ≠ some none
  empty : ∀ s, (w.scales s).nodes = ∅ →
    (w.scales s).loadingNodes = [] ∧ (w.scales s).unloadingNodes = []

theorem count_of_mem_iff {l : List Vector3i} (hl : l.Nodup) {pos : Vector3i} {P : Prop}
    (h : pos ∈ l ↔ P) : (l.count pos = 1 ↔ P) ∧ (l.count pos = 0 ↔ ¬ P) := by
  rw [← h]
  exact ⟨⟨fun hc => List.count_pos_iff.mp (by omega), List.count_eq_one_of_mem hl⟩,
    List.count_eq_zero⟩

theorem holdsNode_iff (w : World D) (s : Nat) (pos : Vector3i) (st : NodeState)
    (hw : Placed t w) : w.HoldsNode s pos st ↔
      ∃ a, (w.scales s).nodes.lookup pos = some (some a) ∧ w.place a = some (pos, st) := by
  constructor
  · rintro ⟨a, n, hat, hst⟩
    refine ⟨a, hat.find, ?_⟩
    rw [place_of_heap hat.heap, hw.position hat, hst]
  · rintro ⟨a, hfind, hpl⟩
    obtain ⟨n, hn, hpair⟩ := Option.map_eq_some_iff.mp hpl
    exact ⟨a, n, ⟨hfind, hn⟩, congrArg Prod.snd hpair⟩

theorem Placed.commandListsAgree {w : World D} (hw : Placed t w) : w.CommandListsAgree := by
  have hload := fun s pos => count_of_mem_iff (hw.loadingNodup s)
    ((hw.loading s pos).trans (holdsNode_iff w s pos .loading hw).symm)
  have hunload := fun s pos => count_of_mem_iff (hw.unloadingNodup s)
    ((hw.unloading s pos).trans (holdsNode_iff w s pos .unloading hw).symm)
  refine ⟨fun s pos => (hload s pos).1, fun s pos => (hload s pos).2,
    fun s pos => (hunload s pos).1, fun s pos => (hunload s pos).2, ?_, ?_⟩
  · intro s pos hnull
    obtain ⟨-, a, -, ha, -⟩ := hw.live hnull
    cases ha
  · intro s hempty
    have hlook : ∀ pos, (w.scales s).nodes.lookup pos = none := by
      intro pos
      rw [hempty, AList.lookup_empty]
    constructor
    · refine List.eq_nil_iff_forall_not_mem.mpr fun pos hpos => ?_
      obtain ⟨a, ha, -⟩ := (hw.loading s pos).mp hpos
      rw [hlook pos] at ha
      cases ha
    · refine List.eq_nil_iff_forall_not_mem.mpr fun pos hpos => ?_
      obtain ⟨a, ha, -⟩ := (hw.unloading s pos).mp hpos
      rw [hlook pos] at ha
      cases ha

/-- In every reachable state the lists agree with the map, and no call has inserted a null
node or failed the assertion on the state of the node it found. -/
theorem commandLists_agree (h : (worldMachine t db).Reachable m) :
    m.world.CommandListsAgree ∧ ¬ m.Failed :=
  ⟨(sound_of_reach (reach_any h)).placed.commandListsAgree, reach_not_failed (reach_any h)⟩

/-- Two nodes of a galaxy world, the first of which is being read. -/
def readingRun : List (Label Universe.GalaxyNode) :=
  [.touchNode 0 ⟨0, 0, 0⟩ 0 0, .touchNode 1 ⟨-1, 0, 0⟩ 0 1, .worldDoNodeLoadCommands 0, .next 0 0]

theorem commandLists_agree_readingRun :
    ∃ m, (worldMachine Universe.galaxyType fun _ => none).exec (initial _ fun _ => none)
        readingRun = some m ∧ (m.world.CommandListsAgree ∧ ¬ m.Failed) := by
  obtain ⟨m, hm⟩ := Option.isSome_iff_exists.mp
    (show ((worldMachine Universe.galaxyType fun _ => none).exec (initial _ fun _ => none)
      readingRun).isSome = true from by decide)
  exact ⟨m, hm, commandLists_agree (Library.Machine.reachable_of_exec rfl hm)⟩

end CosmicArchitect.Spatial3D
