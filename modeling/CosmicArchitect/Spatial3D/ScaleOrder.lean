import CosmicArchitect.Spatial3D.ScaleTasks
import CosmicArchitect.Spatial3D.TaskStates
import Mathlib.Algebra.Order.BigOperators.Group.Finset

/-!
# Scale updates in any order (SpatialWorld.cpp:613-707, UniverseSimulation.cpp:127-195)

The tasks of the scales, one after the other or side by side, leave the same nodes and command
lists. Only the addresses of new nodes depend on who asked `malloc` first.
-/

namespace CosmicArchitect.Spatial3D
open Serialize Library Library.Machine Relation

variable {D : Type} {t : TypeData D} {db : NodeCoord → Option Bytes} {now : Int}

/-! ### Reachable worlds -/

theorem owned_of_placed {w : World D} (h : Placed t w) : Owned w where
  live hfind := by
    obtain ⟨-, b, st, hb, hplace, -⟩ := h.live hfind
    cases hb
    obtain ⟨n, hn, -⟩ := Option.map_eq_some_iff.mp hplace
    rw [hn]
    rfl
  inj h₁ h₂ := h.unique h₁ h₂
  free := by
    -- every allocated node is in one of the maps, and these are finite
    let addresses := (List.range t.maxScale).flatMap fun s =>
      (w.scales s).nodes.entries.filterMap (·.2)
    refine ⟨addresses.sum + 1, fun a ha => ?_⟩
    rcases hheap : w.heap a with _ | n
    · rfl
    · obtain ⟨s, hlookup⟩ := h.stored (place_of_heap hheap)
      have hs := (h.live hlookup).1
      have hentry : (⟨n.position, some a⟩ : Sigma fun _ : Vector3i => NodePtr) ∈
          (w.scales s).nodes.entries := AList.mem_lookup_iff.mp hlookup
      have hmem : a ∈ addresses := List.mem_flatMap.mpr
        ⟨s, List.mem_range.mpr hs, List.mem_filterMap.mpr ⟨_, hentry, rfl⟩⟩
      have hle := List.le_sum_of_mem hmem
      omega

/-! ### A task from its start to its end -/

/-- The steps of one task while the others wait. -/
abbrev ScaleRuns (t : TypeData D) (now : Int) (coords : List Vector3i) (s : Nat) :
    World D × ScaleControl → World D × ScaleControl → Prop :=
  ReflTransGen fun p q => ∃ fresh, scaleStep t now coords s fresh p.1 p.2 = some q

variable {coords : List Vector3i} {s fresh : Nat} {w w' : World D} {c c' : ScaleControl}
  {pos : Vector3i} {left : List Vector3i}

theorem ScaleRuns.actsOn {p q : World D × ScaleControl} (h : ScaleRuns t now coords s p q)
    (howned : Owned p.1) (hready : Ready p.1 s p.2) : ActsOn s p.1 q.1 ∧ Ready q.1 s q.2 := by
  induction h with
  | refl => exact ⟨.refl howned s, hready⟩
  | tail _ hstep ih =>
    obtain ⟨fresh, hstep⟩ := hstep
    obtain ⟨hacts, hready⟩ := ih
    have hmove := scaleStep_move hstep
    exact ⟨hacts.trans (hmove.actsOn hacts.owned hready), hready.move hmove⟩

theorem unloadUnutilized_runs (howned : Owned w) (hready : Ready w s (.unload (pos :: left))) :
    ScaleRuns t now coords s (w, .unload (pos :: left))
      (unloadUnutilized t s now w pos, .unload left) := by
  obtain ⟨a, n, hat⟩ := hready.node howned rfl List.mem_cons_self
  have hheap := heap_modify_self hat.heap fun n => { n with state := .unloading }
  by_cases hcond : (w.unloading ∨ t.nodeKeepalive < now - n.lastUpdateTime) ∧ n.state = .loaded
  · have hmarked : unloadUnutilized t s now w pos =
        (w.modify a fun n => { n with state := .unloading }).setScale s
          fun scale => { scale with unloadingNodes := scale.unloadingNodes ++ [n.position] } := by
      simp only [unloadUnutilized, hat.find, hat.heap, if_pos hcond.1, hcond.2]
    have hchecked : ScaleRuns t now coords s (w, .unload (pos :: left)) (w, .setUnloading pos left) := by
      refine .single ⟨0, ?_⟩
      simp only [scaleStep, hat.find, hat.heap, Option.map_some, if_pos hcond]
    have hset : ScaleRuns t now coords s (w, .setUnloading pos left)
        (w.modify a fun n => { n with state := .unloading }, .pushUnloading pos left) := by
      refine .single ⟨0, ?_⟩
      simp only [scaleStep, hat.nodeAt, Option.map_some]
    refine (hchecked.trans hset).trans (.single ⟨0, ?_⟩)
    have hat' : (w.modify a fun n => { n with state := .unloading }).At s pos a
        { n with state := .unloading } := ⟨hat.find, hheap⟩
    rw [hmarked]
    simp only [scaleStep, hat'.nodeAt, Option.map_some]
  · have hsame : unloadUnutilized t s now w pos = w := by
      simp only [unloadUnutilized, hat.find, hat.heap]
      split
      · next hold =>
        split
        · next hstate => exact absurd ⟨hold, hstate⟩ hcond
        · rfl
      · rfl
    rw [hsame]
    refine .single ⟨0, ?_⟩
    simp only [scaleStep, hat.find, hat.heap, Option.map_some, if_neg hcond]

theorem scaleUnload_runs (t : TypeData D) (now : Int) (coords order : List Vector3i) :
    ∀ {w : World D}, Owned w →
    Ready w s (.unload order) → ScaleRuns t now coords s (w, .unload order)
      (scaleUnloadUnutilizedNodes t s now order w, .load coords) := by
  induction order with
  | nil =>
    intro w _ _
    exact .single ⟨0, rfl⟩
  | cons pos order ih =>
    intro w howned hready
    have hfirst : ScaleRuns t now coords s (w, .unload (pos :: order))
        (unloadUnutilized t s now w pos, .unload order) := unloadUnutilized_runs howned hready
    obtain ⟨hacts, hnext⟩ := ScaleRuns.actsOn hfirst howned hready
    exact hfirst.trans (ih hacts.owned hnext)

/-- For a new node `TouchNode` is five steps. -/
theorem createNode_runs (hfind : w.find s pos = none) (hdead : w.heap fresh = none) :
    ScaleRuns t now coords s (w, .load (pos :: left)) (w.create t s pos now fresh, .load left) := by
  let reserved := w.setScale s fun scale => { scale with nodes := scale.nodes.insert pos none }
  let created := (reserved.alloc fresh (createdNode t)).setScale s fun scale =>
    { scale with nodes := scale.nodes.insert pos (some fresh) }
  let inited := created.modify fresh (Node.init s pos)
  let pushed := inited.setScale s fun scale =>
    { scale with loadingNodes := scale.loadingNodes ++ [pos] }
  have hslot : created.find s pos = some (some fresh) := by
    rw [find_insert, if_pos ⟨rfl, rfl⟩]
  have hcreated : created.At s pos fresh (createdNode t) := ⟨hslot, Function.update_self ..⟩
  have hpushed : pushed.At s pos fresh ((createdNode t).init s pos) := by
    have hsame : pushed.find s pos = inited.find s pos :=
      inited.find_setScale_nodes s s pos fun _ => rfl
    exact ⟨hsame.trans hslot, heap_modify_self hcreated.heap _⟩
  have h₁ : ScaleRuns t now coords s (w, .load (pos :: left)) (reserved, .create pos left) := by
    refine .single ⟨fresh, ?_⟩
    simp only [scaleStep, hfind]
    rfl
  have h₂ : ScaleRuns t now coords s (reserved, .create pos left) (created, .init pos left) := by
    refine .single ⟨fresh, ?_⟩
    have hdead' : reserved.heap fresh = none := hdead
    simp only [scaleStep, hdead', Option.isNone_none, if_true]
    rfl
  have h₃ : ScaleRuns t now coords s (created, .init pos left) (inited, .pushLoading pos left) := by
    refine .single ⟨fresh, ?_⟩
    simp only [scaleStep, hcreated.nodeAt, Option.map_some]
    rfl
  have h₄ : ScaleRuns t now coords s (inited, .pushLoading pos left) (pushed, .touch pos left) :=
    .single ⟨fresh, rfl⟩
  have h₅ : ScaleRuns t now coords s (pushed, .touch pos left)
      (pushed.modify fresh fun n => { n with lastUpdateTime := now }, .load left) := by
    refine .single ⟨fresh, ?_⟩
    simp only [scaleStep, hpushed.nodeAt, Option.map_some]
  -- the writes together are those of `World.create`
  have hsame : (pushed.modify fresh fun n => { n with lastUpdateTime := now }) =
      w.create t s pos now fresh := by
    simp only [pushed, inited, created, reserved, World.create, World.modify, World.setScale,
      World.alloc, Function.update_idem, Function.update_self, AList.insert_insert, Option.map_some]
    rfl
  rw [← hsame]
  exact (((h₁.trans h₂).trans h₃).trans h₄).trans h₅

/-- For a node that exists it is two. -/
theorem renewNode_runs {a : Nat} {n : Node D} (hat : w.At s pos a n) :
    ScaleRuns t now coords s (w, .load (pos :: left))
      (w.modify a fun n => { n with lastUpdateTime := now }, .load left) := by
  have hfound : ScaleRuns t now coords s (w, .load (pos :: left)) (w, .touch pos left) := by
    refine .single ⟨0, ?_⟩
    simp only [scaleStep, hat.find]
  refine hfound.trans (.single ⟨0, ?_⟩)
  simp only [scaleStep, hat.nodeAt, Option.map_some]

theorem touchNode_runs {events : List Event} (hdead : w.heap fresh = none)
    (h : touchNode t s pos now fresh w = some (w', events)) :
    ScaleRuns t now coords s (w, .load (pos :: left)) (w', .load left) := by
  unfold touchNode at h
  split at h
  · next hfind =>
    cases h
    exact createNode_runs hfind hdead
  · cases h
  · next a hfind =>
    split at h
    · next hheap =>
      obtain ⟨n, hn⟩ := Option.isSome_iff_exists.mp hheap
      cases h
      exact renewNode_runs ⟨hfind, hn⟩
    · cases h

/-! ### A scale update is such a run -/

theorem touchNode_defined (t : TypeData D) (now : Int) {left : List Vector3i} (howned : Owned w)
    (hready : Ready w s (.load left)) (pos : Vector3i) (fresh : Nat) :
    ∃ w' events, touchNode t s pos now fresh w = some (w', events) := by
  unfold touchNode
  split
  · exact ⟨_, _, rfl⟩
  · next hnull => cases (hready.null pos).mp hnull
  · next a hfind => exact ⟨_, _, if_pos (howned.live hfind)⟩

theorem step_touchNode {m m' : State D} {left : List Vector3i} (howned : Owned m.world)
    (hready : Ready m.world s (.load left))
    (h : step t m (.touchNode s pos now fresh) = some m') : m'.control = .idle ∧
      m.world.heap fresh = none ∧
      ∃ events, touchNode t s pos now fresh m.world = some (m'.world, events) := by
  obtain ⟨w', events, htouch⟩ := touchNode_defined t now howned hready pos fresh
  simp only [step, htouch] at h
  split at h
  · next hc =>
    cases h
    exact ⟨rfl, Option.isNone_iff_eq_none.mp hc.2.2, events, htouch⟩
  · cases h

theorem touchNodes_runs (coords : List Vector3i) {ps : List (Vector3i × Nat)} :
    ∀ {m m' : State D}, Owned m.world →
    Ready m.world s (.load (ps.map Prod.fst)) → touchNodes t s now ps m = some m' →
    ScaleRuns t now coords s (m.world, .load (ps.map Prod.fst)) (m'.world, .load []) := by
  induction ps with
  | nil =>
    intro m m' _ _ h
    cases Option.some.inj h
    exact .refl
  | cons p ps ih =>
    intro m m' howned hready h
    obtain ⟨pos, fresh⟩ := p
    obtain ⟨m₁, h₁, hrest⟩ := Option.bind_eq_some_iff.mp h
    obtain ⟨-, hdead, events, htouch⟩ := step_touchNode howned hready h₁
    have hfirst : ScaleRuns t now coords s (m.world, .load (pos :: ps.map Prod.fst))
        (m₁.world, .load (ps.map Prod.fst)) := touchNode_runs hdead htouch
    obtain ⟨hacts, hnext⟩ := ScaleRuns.actsOn hfirst howned hready
    exact hfirst.trans (ih hacts.owned hnext hrest)

variable {loaders : List Loader} {order : Nat → List Vector3i}

theorem scaleUpdate_runs {m m' : State D} {order : List Vector3i} {fresh : List Nat}
    (howned : Owned m.world) (hready : Ready m.world s (.unload order))
    (hlen : fresh.length = (nodesAroundLoaders loaders s).length)
    (h : Frame.scaleUpdate t { spatial := m, loaders := loaders, frameStartTime := now } s order
      fresh = some m') :
    ScaleRuns t now (nodesAroundLoaders loaders s) s (m.world, .unload order)
      (m'.world, .load []) := by
  obtain ⟨m₁, h₁, hrest⟩ := Option.bind_eq_some_iff.mp h
  simp only [step] at h₁
  split at h₁
  · cases h₁
    have hsweep := scaleUnload_runs t now (nodesAroundLoaders loaders s) order howned hready
    obtain ⟨hacts, hnext⟩ := ScaleRuns.actsOn hsweep howned hready
    have hmap : ((nodesAroundLoaders loaders s).zip fresh).map Prod.fst =
        nodesAroundLoaders loaders s := List.map_fst_zip (Nat.le_of_eq hlen.symm)
    rw [← hmap] at hnext
    have htouch := touchNodes_runs (nodesAroundLoaders loaders s) hacts.owned hnext hrest
    rw [hmap] at htouch
    exact hsweep.trans htouch
  · cases h₁

/-! ### All interleavings of the tasks -/

/-- What holds while the tasks run that started in the world `w`. -/
structure Interleaved (t : TypeData D) (w : World D) (m : ScaleTasks D) : Prop where
  owned : Owned m.world
  ready : ∀ s, Ready m.world s (m.control s)
  unused : ∀ {s}, t.maxScale ≤ s → m.control s = .load []
  kept : ∀ {s p a}, w.find s p = some (some a) → m.world.find s p = some (some a)
  background : m.world.tasks = w.tasks ∧ m.world.pool = w.pool ∧ m.world.database = w.database

theorem scaleTasks_step {w : World D} {order : Nat → List Vector3i} {m m' : ScaleTasks D}
    {l : Nat × Nat} (h : (scaleTasksMachine t now loaders w order).step m l = some m') :
    m'.control = Function.update m.control l.1 (m'.control l.1) ∧
      ScaleMove t now (nodesAroundLoaders loaders l.1) l.1 l.2 m.world (m.control l.1) m'.world
        (m'.control l.1) := by
  obtain ⟨r, hr, rfl⟩ := Option.map_eq_some_iff.mp h
  dsimp only
  rw [Function.update_self]
  exact ⟨rfl, scaleStep_move hr⟩

theorem Interleaved.step {w w₀ : World D} {order : Nat → List Vector3i} {m m' : ScaleTasks D}
    {l : Nat × Nat} (h : Interleaved t w m)
    (hstep : (scaleTasksMachine t now loaders w₀ order).step m l = some m') :
    Interleaved t w m' := by
  obtain ⟨hcontrol, hmove⟩ := scaleTasks_step hstep
  have hacts := hmove.actsOn h.owned (h.ready l.1)
  have hother : ∀ s, s ≠ l.1 → m'.control s = m.control s := by
    intro s hs
    rw [hcontrol, Function.update_of_ne hs]
  refine ⟨hacts.owned, fun s => ?_, fun {s} hs => ?_, fun hfind => hacts.find (h.kept hfind), ?_⟩
  · by_cases heq : s = l.1
    · subst heq
      exact (h.ready l.1).move hmove
    · rw [hother s heq]
      refine (h.ready s).next (fun p => ?_) rfl (h.ready s).stored
      simp only [World.find, hacts.scales heq]
  · by_cases heq : s = l.1
    · subst heq
      rw [h.unused hs] at hmove
      cases hmove
    · rw [hother s heq, h.unused hs]
  · exact ⟨hacts.background.1.trans h.background.1, hacts.background.2.1.trans h.background.2.1,
      hacts.background.2.2.trans h.background.2.2⟩

/-- A scale with the place where its task stands. -/
abbrev ScaleTasks.part (s : Nat) (m : ScaleTasks D) : ScaleView D × ScaleControl :=
  (m.world.view s, m.control s)

theorem scaleTasks_parted (t : TypeData D) (now : Int) (loaders : List Loader) (w w₀ : World D)
    (order : Nat → List Vector3i) :
    (scaleTasksMachine t now loaders w₀ order).Parted (Interleaved t w) ScaleTasks.part
      fun s p => p.1.step t now (nodesAroundLoaders loaders s) s p.2 where
  own h hstep := by
    obtain ⟨-, hmove⟩ := scaleTasks_step hstep
    exact hmove.view_step h.owned
  other {m m' s s' l} h hstep hne := by
    obtain ⟨hcontrol, hmove⟩ := scaleTasks_step hstep
    have hacts := hmove.actsOn h.owned (h.ready s)
    rw [ScaleTasks.part, hacts.view hne, hcontrol, Function.update_of_ne hne]
  inv h hstep := h.step hstep

/-- The steps of the tasks that are left, at most. -/
def ScaleTasks.remaining (t : TypeData D) (loaders : List Loader) (m : ScaleTasks D) : Nat :=
  ∑ s ∈ Finset.range t.maxScale, (m.control s).remaining (nodesAroundLoaders loaders s).length

theorem scaleTasks_remaining {w w₀ : World D} {order : Nat → List Vector3i} {m m' : ScaleTasks D}
    {l : Nat × Nat} (h : Interleaved t w m)
    (hstep : (scaleTasksMachine t now loaders w₀ order).step m l = some m') :
    m'.remaining t loaders < m.remaining t loaders := by
  obtain ⟨hcontrol, hmove⟩ := scaleTasks_step hstep
  have hlt := hmove.remaining_lt
  have hs : l.1 < t.maxScale := by
    by_contra hge
    rw [h.unused (Nat.le_of_not_lt hge)] at hmove
    cases hmove
  refine Finset.sum_lt_sum (fun s _ => ?_) ⟨l.1, Finset.mem_range.mpr hs, hlt⟩
  by_cases heq : s = l.1
  · subst heq
    exact Nat.le_of_lt hlt
  · rw [hcontrol, Function.update_of_ne heq]

theorem scaleTasks_progress (now : Int) (loaders : List Loader) {w w₀ : World D}
    {order : Nat → List Vector3i} {m : ScaleTasks D} (h : Interleaved t w m) (hunfinished : ¬ m.Finished) :
    ∃ l m', (scaleTasksMachine t now loaders w₀ order).step m l = some m' := by
  obtain ⟨s, hs⟩ := not_forall.mp hunfinished
  obtain ⟨k, hfree⟩ := h.owned.free
  have henabled : (scaleStep t now (nodesAroundLoaders loaders s) s k m.world
      (m.control s)).isSome := (h.ready s).enabled h.owned hs (hfree k (Nat.le_refl k))
  obtain ⟨r, hr⟩ := Option.isSome_iff_exists.mp henabled
  exact ⟨(s, k), ⟨r.1, Function.update m.control s r.2⟩, congrArg (Option.map _) hr⟩

/-- The run of one task, among the others. -/
theorem ScaleRuns.lift (w₀ : World D) (order : Nat → List Vector3i) {m : ScaleTasks D}
    {q : World D × ScaleControl}
    (h : ScaleRuns t now (nodesAroundLoaders loaders s) s (m.world, m.control s) q) :
    (scaleTasksMachine t now loaders w₀ order).Runs m
      ⟨q.1, Function.update m.control s q.2⟩ := by
  induction h with
  | refl =>
    rw [Function.update_eq_self]
    exact .refl _ m
  | @tail p q _ hstep ih =>
    obtain ⟨fresh, hstep⟩ := hstep
    refine ih.trans (.step (l := (s, fresh)) ?_ (.refl _ _))
    simp only [scaleTasksMachine, Function.update_self, hstep, Option.map_some, Function.update_idem]

theorem interleaved_start {w : World D} (h : Placed t w)
    (horder : ∀ s, s < t.maxScale → (order s).Perm (w.scales s).nodes.keys) :
    Interleaved t w (.start t w order) where
  owned := owned_of_placed h
  ready s := by
    have hnull : ∀ p, w.find s p ≠ some none := by
      intro p hp
      obtain ⟨-, a, st, ha, -⟩ := h.live hp
      cases ha
    dsimp only [ScaleTasks.start]
    split
    · next hs =>
      refine ⟨fun p => ?_, fun p hp => ?_⟩
      · simp only [hnull p, ScaleControl.reserved, reduceCtorEq]
      · exact AList.lookup_isSome.mpr (((horder s hs).mem_iff).mp hp)
    · refine ⟨fun p => ?_, fun _ hp => absurd hp List.not_mem_nil⟩
      simp only [hnull p, ScaleControl.reserved, reduceCtorEq]
  unused hs := if_neg (Nat.not_lt_of_le hs)
  kept h := h
  background := ⟨rfl, rfl, rfl⟩

theorem Interleaved.runs {w w₀ : World D} {order : Nat → List Vector3i} {m m' : ScaleTasks D}
    (h : Interleaved t w m) (hruns : (scaleTasksMachine t now loaders w₀ order).Runs m m') :
    Interleaved t w m' := by
  obtain ⟨ls, hexec⟩ := hruns
  exact ((scaleTasks_parted t now loaders w w₀ order).leads h hexec).1

/-! ### One scale after the other -/

/-- What is left of a sequential update. -/
structure Pending (t : TypeData D) (w : World D) (order : Nat → List Vector3i) (ss : List Nat)
    (m : State D) (control : Nat → ScaleControl) : Prop where
  interleaved : Interleaved t w ⟨m.world, control⟩
  nodup : ss.Nodup
  waiting : ∀ s ∈ ss, control s = .unload (order s)

theorem Pending.update {w : World D} {ss : List Nat} {m m' : State D}
    {control : Nat → ScaleControl} {fresh : List Nat}
    (h : Pending t w order (s :: ss) m control)
    (hlen : fresh.length = (nodesAroundLoaders loaders s).length)
    (hupdate : Frame.scaleUpdate t { spatial := m, loaders := loaders, frameStartTime := now } s
      (order s) fresh = some m') :
    (scaleTasksMachine t now loaders w order).Runs ⟨m.world, control⟩
      ⟨m'.world, Function.update control s (.load [])⟩ ∧
      Pending t w order ss m' (Function.update control s (.load [])) := by
  have hcontrol : control s = .unload (order s) := h.waiting s List.mem_cons_self
  have hready := h.interleaved.ready s
  dsimp only at hready
  rw [hcontrol] at hready
  have hscale := scaleUpdate_runs h.interleaved.owned hready hlen hupdate
  rw [← hcontrol] at hscale
  have hruns := ScaleRuns.lift w order (m := ⟨m.world, control⟩) hscale
  obtain ⟨hnew, hnodup⟩ := List.nodup_cons.mp h.nodup
  refine ⟨hruns, h.interleaved.runs hruns, hnodup, fun s' hs' => ?_⟩
  have hne : s' ≠ s := by
    intro heq
    rw [heq] at hs'
    exact hnew hs'
  rw [Function.update_of_ne hne]
  exact h.waiting s' (List.mem_cons_of_mem s hs')

/-- The scales one after the other are an interleaving. -/
theorem updateScales_runs {w : World D} {ps : List (Nat × List Nat)} : ∀ {m m' : State D}
    {control : Nat → ScaleControl}, Pending t w order (ps.map Prod.fst) m control →
    (∀ p ∈ ps, p.2.length = (nodesAroundLoaders loaders p.1).length) →
    updateScales t now loaders order ps m = some m' → ∃ control' : Nat → ScaleControl,
      (scaleTasksMachine t now loaders w order).Runs ⟨m.world, control⟩ ⟨m'.world, control'⟩ ∧
      ∀ s, s ∈ ps.map Prod.fst ∨ control s = .load [] → control' s = .load [] := by
  induction ps with
  | nil =>
    intro m m' control _ _ h
    cases Option.some.inj h
    exact ⟨control, .refl _ _, fun s hs => hs.resolve_left List.not_mem_nil⟩
  | cons p ps ih =>
    intro m m' control hpending hlen h
    obtain ⟨m₁, h₁, hrest⟩ := Option.bind_eq_some_iff.mp h
    obtain ⟨hruns, hpending'⟩ := hpending.update (hlen p List.mem_cons_self) h₁
    obtain ⟨control', hruns', hdone⟩ :=
      ih hpending' (fun p hp => hlen p (List.mem_cons_of_mem _ hp)) hrest
    refine ⟨control', hruns.trans hruns', fun s hs => hdone s ?_⟩
    by_cases heq : s = p.1
    · exact .inr (by rw [heq, Function.update_self])
    · rw [Function.update_of_ne heq]
      rcases hs with hs | hs
      · exact .inl ((List.mem_cons.mp hs).resolve_left heq)
      · exact .inr hs

/-! ### An update of any order exists -/

theorem touchNodes_exist (now : Int) {ps : List Vector3i} : ∀ {m : State D}, m.control = .idle →
    s < t.maxScale → Owned m.world → Ready m.world s (.load ps) →
    ∃ fresh m', fresh.length = ps.length ∧ m'.control = .idle ∧
      touchNodes t s now (ps.zip fresh) m = some m' := by
  induction ps with
  | nil => exact fun {m} hidle _ _ _ => ⟨[], m, rfl, hidle, rfl⟩
  | cons pos ps ih =>
    intro m hidle hs howned hready
    obtain ⟨k, hfree⟩ := howned.free
    have hdead := hfree k (Nat.le_refl k)
    obtain ⟨w', events, htouch⟩ := touchNode_defined t now howned hready pos k
    have hstep : step t m (.touchNode s pos now k) = some (m.record w' events .idle) := by
      simp only [step, htouch]
      exact if_pos ⟨hidle, hs, by rw [hdead]; rfl⟩
    have hruns : ScaleRuns t now ps s (m.world, .load (pos :: ps)) (w', .load ps) :=
      touchNode_runs hdead htouch
    obtain ⟨hacts, hnext⟩ := ScaleRuns.actsOn hruns howned hready
    obtain ⟨fresh, m', hlen, hidle', hrest⟩ :=
      ih (m := m.record w' events .idle) rfl hs hacts.owned hnext
    refine ⟨k :: fresh, m', congrArg Nat.succ hlen, hidle', ?_⟩
    rw [List.zip_cons_cons, touchNodes, hstep, Option.bind_some, hrest]

theorem scaleUpdate_exists (now : Int) (loaders : List Loader) {m : State D}
    {order : List Vector3i} (hidle : m.control = .idle) (hs : s < t.maxScale) (horder : order.Perm (m.world.scales s).nodes.keys)
    (howned : Owned m.world) (hready : Ready m.world s (.unload order)) :
    ∃ fresh m', fresh.length = (nodesAroundLoaders loaders s).length ∧ m'.control = .idle ∧
      Frame.scaleUpdate t { spatial := m, loaders := loaders, frameStartTime := now } s order fresh =
        some m' := by
  have hsweep := scaleUnload_runs t now (nodesAroundLoaders loaders s) order howned hready
  obtain ⟨hacts, hnext⟩ := ScaleRuns.actsOn hsweep howned hready
  obtain ⟨fresh, m', hlen, hidle', htouch⟩ := touchNodes_exist now
    (m := { m with world := scaleUnloadUnutilizedNodes t s now order m.world }) hidle hs hacts.owned
    hnext
  refine ⟨fresh, m', hlen, hidle', ?_⟩
  have hstep : step t m (.scaleUnloadUnutilizedNodes s now order) =
      some { m with world := scaleUnloadUnutilizedNodes t s now order m.world } :=
    if_pos ⟨hidle, hs, horder⟩
  simp only [Frame.scaleUpdate, hstep, Option.bind_some]
  exact htouch

theorem updateScales_exists {w : World D} {ss : List Nat} : ∀ {m : State D}
    {control : Nat → ScaleControl}, m.control = .idle → Pending t w order ss m control →
    (∀ s ∈ ss, s < t.maxScale ∧ (order s).Perm (m.world.scales s).nodes.keys) →
    ∃ ps m', ps.map Prod.fst = ss ∧
      (∀ p ∈ ps, p.2.length = (nodesAroundLoaders loaders p.1).length) ∧
      updateScales t now loaders order ps m = some m' := by
  induction ss with
  | nil => exact fun {m} _ _ _ _ => ⟨[], m, rfl, fun _ hp => absurd hp List.not_mem_nil, rfl⟩
  | cons s ss ih =>
    intro m control hidle hpending horder
    have hready := hpending.interleaved.ready s
    dsimp only at hready
    rw [hpending.waiting s List.mem_cons_self] at hready
    obtain ⟨hs, hperm⟩ := horder s List.mem_cons_self
    obtain ⟨fresh, m₁, hlen, hidle₁, hupdate⟩ := scaleUpdate_exists now loaders
      hidle hs hperm hpending.interleaved.owned hready
    obtain ⟨-, hpending₁⟩ := hpending.update hlen hupdate
    obtain ⟨hacts, -⟩ := ScaleRuns.actsOn
      (scaleUpdate_runs hpending.interleaved.owned hready hlen hupdate)
      hpending.interleaved.owned hready
    have hnew := (List.nodup_cons.mp hpending.nodup).1
    obtain ⟨ps, m', hss, hlens, hrest⟩ := ih hidle₁ hpending₁ fun s' hs' => by
      have hne : s' ≠ s := by
        intro heq
        rw [heq] at hs'
        exact hnew hs'
      rw [hacts.scales hne]
      exact horder s' (List.mem_cons_of_mem s hs')
    refine ⟨(s, fresh) :: ps, m', by rw [List.map_cons, hss], fun p hp => ?_, ?_⟩
    · rcases List.mem_cons.mp hp with rfl | hp
      · exact hlen
      · exact hlens p hp
    · rw [updateScales, hupdate, Option.bind_some, hrest]

/-! ### All orders agree -/

/-- The worlds two updates of `w` can end in: the same nodes in the same slots, the same command
lists, and only the addresses of new nodes may differ. -/
structure SameUpToNew (w w₁ w₂ : World D) : Prop where
  view : ∀ s, w₁.view s = w₂.view s
  owned : Owned w₁ ∧ Owned w₂
  kept : ∀ {s p a}, w.find s p = some (some a) →
    w₁.find s p = some (some a) ∧ w₂.find s p = some (some a)
  old : ∀ {a}, (w.heap a).isSome → w₁.heap a = w₂.heap a
  background : w₁.tasks = w₂.tasks ∧ w₁.pool = w₂.pool ∧ w₁.database = w₂.database

/-- The worlds after the updates of all scales. -/
inductive ScaleResult (t : TypeData D) (now : Int) (loaders : List Loader)
    (order : Nat → List Vector3i) (m : State D) : World D → Prop
  | interleaved {ls m₁} : (scaleTasksMachine t now loaders m.world order).exec
      (.start t m.world order) ls = some m₁ → m₁.Finished → ScaleResult t now loaders order m m₁.world
  | sequential {ps m₁} : (ps.map Prod.fst).Perm (List.range t.maxScale) →
      (∀ p ∈ ps, p.2.length = (nodesAroundLoaders loaders p.1).length) →
      updateScales t now loaders order ps m = some m₁ → ScaleResult t now loaders order m m₁.world

theorem pending_start {m : State D} (h : Placed t m.world)
    (horder : ∀ s, s < t.maxScale → (order s).Perm (m.world.scales s).nodes.keys) {ss : List Nat}
    (hss : ss.Perm (List.range t.maxScale)) :
    Pending t m.world order ss m (ScaleTasks.start t m.world order).control where
  interleaved := interleaved_start h horder
  nodup := hss.nodup_iff.mpr List.nodup_range
  waiting _ hs := if_pos (List.mem_range.mp (hss.mem_iff.mp hs))

/-- Each of them is the end of an interleaving. -/
theorem ScaleResult.runs {m : State D} {w : World D} (hplaced : Placed t m.world)
    (horder : ∀ s, s < t.maxScale → (order s).Perm (m.world.scales s).nodes.keys)
    (h : ScaleResult t now loaders order m w) : ∃ m₁ : ScaleTasks D, m₁.world = w ∧ m₁.Finished ∧
      (scaleTasksMachine t now loaders m.world order).Runs (.start t m.world order) m₁ := by
  cases h with
  | interleaved hexec hdone => exact ⟨_, rfl, hdone, _, hexec⟩
  | sequential hss hlen hupdate =>
    obtain ⟨control, hruns, hdone⟩ :=
      updateScales_runs (pending_start hplaced horder hss) hlen hupdate
    refine ⟨⟨_, control⟩, rfl, fun s => hdone s ?_, hruns⟩
    by_cases hs : s < t.maxScale
    · exact .inl (hss.mem_iff.mpr (List.mem_range.mpr hs))
    · exact .inr (if_neg hs)

theorem ScaleResult.agree {m : State D} {w₁ w₂ : World D} (hplaced : Placed t m.world)
    (horder : ∀ s, s < t.maxScale → (order s).Perm (m.world.scales s).nodes.keys)
    (h₁ : ScaleResult t now loaders order m w₁) (h₂ : ScaleResult t now loaders order m w₂) :
    SameUpToNew m.world w₁ w₂ := by
  obtain ⟨m₁, rfl, hdone₁, ls₁, hexec₁⟩ := h₁.runs hplaced horder
  obtain ⟨m₂, rfl, hdone₂, ls₂, hexec₂⟩ := h₂.runs hplaced horder
  have hstart := interleaved_start hplaced horder
  have hparted := scaleTasks_parted t now loaders m.world m.world order
  have hend : ∀ {m' : ScaleTasks D}, m'.Finished → ∀ s, (m'.part s).1.step t now
      (nodesAroundLoaders loaders s) s (m'.part s).2 = none := by
    intro m' hdone s
    rw [ScaleTasks.part, hdone s]
    rfl
  have hview : ∀ s, m₁.world.view s = m₂.world.view s := fun s =>
    congrArg Prod.fst (hparted.agree hstart hexec₁ hexec₂ (hend hdone₁) (hend hdone₂) s)
  obtain ⟨hinv₁, -⟩ := hparted.leads hstart hexec₁
  obtain ⟨hinv₂, -⟩ := hparted.leads hstart hexec₂
  refine ⟨hview, ⟨hinv₁.owned, hinv₂.owned⟩, fun hfind => ⟨hinv₁.kept hfind, hinv₂.kept hfind⟩,
    fun ha => ?_, ?_⟩
  · -- the node is in a slot, and both updates keep it there
    obtain ⟨n, hn⟩ := Option.isSome_iff_exists.mp ha
    obtain ⟨s, hfind⟩ := hplaced.stored (place_of_heap hn)
    have hsame := congrFun (congrArg ScaleView.node (hview s)) n.position
    simp only [World.view, hinv₁.kept hfind, hinv₂.kept hfind, Option.map_some, Option.bind_some,
      Option.some.injEq] at hsame
    exact hsame
  · obtain ⟨htasks₁, hpool₁, hdb₁⟩ := hinv₁.background
    obtain ⟨htasks₂, hpool₂, hdb₂⟩ := hinv₂.background
    exact ⟨htasks₁.trans htasks₂.symm, hpool₁.trans hpool₂.symm, hdb₁.trans hdb₂.symm⟩

theorem scaleTasks_complete (now : Int) (loaders : List Loader) (order : Nat → List Vector3i)
    {w : World D} {m : ScaleTasks D} (h : Interleaved t w m) :
    ∃ m', (scaleTasksMachine t now loaders w order).Runs m m' ∧ m'.Finished := by
  refine Runs.complete (I := Interleaved t w) (f := ScaleTasks.remaining t loaders) ?_
    (m.remaining t loaders) m rfl h
  intro m h hunfinished
  obtain ⟨l, m', hstep⟩ : ∃ l m', (scaleTasksMachine t now loaders w order).step m l = some m' :=
    scaleTasks_progress now loaders h hunfinished
  exact ⟨l, m', hstep, h.step hstep, scaleTasks_remaining h hstep⟩

/-- The order in which the scales of a world are updated, or their tasks interleaved, does not
matter, and all orders and interleavings come to their end. -/
theorem scaleUpdates_agree {m : State D} (h : (worldMachine t db).Reachable m) (now : Int)
    (loaders : List Loader) (order : Nat → List Vector3i)
    (horder : ∀ s, s < t.maxScale → (order s).Perm (m.world.scales s).nodes.keys) :
    (∀ w₁ w₂, ScaleResult t now loaders order m w₁ → ScaleResult t now loaders order m w₂ →
      SameUpToNew m.world w₁ w₂) ∧
    (m.control = .idle → ∀ ss : List Nat, ss.Perm (List.range t.maxScale) →
      ∃ ps m₁, ps.map Prod.fst = ss ∧
        (∀ p ∈ ps, p.2.length = (nodesAroundLoaders loaders p.1).length) ∧
        updateScales t now loaders order ps m = some m₁) ∧
    ∃ k, ∀ ls m₁, (scaleTasksMachine t now loaders m.world order).exec
      (.start t m.world order) ls = some m₁ → ls.length ≤ k ∧
        ∃ ls' m₂, (scaleTasksMachine t now loaders m.world order).exec m₁ ls' = some m₂ ∧
          m₂.Finished := by
  have hplaced : Placed t m.world := (sound_of_reach (reach_any h)).placed
  have hstart := interleaved_start hplaced horder
  refine ⟨fun w₁ w₂ h₁ h₂ => h₁.agree hplaced horder h₂, fun hidle ss hss => ?_,
    (ScaleTasks.start t m.world order).remaining t loaders, fun ls m₁ hexec => ⟨?_, ?_⟩⟩
  · exact updateScales_exists hidle (pending_start hplaced horder hss) fun s hs =>
      ⟨List.mem_range.mp (hss.mem_iff.mp hs), horder s (List.mem_range.mp (hss.mem_iff.mp hs))⟩
  · have hle := exec_length_le (I := Interleaved t m.world)
      (f := ScaleTasks.remaining t loaders)
      (fun _ _ _ h hstep => ⟨h.step hstep, scaleTasks_remaining h hstep⟩) hstart hexec
    omega
  · obtain ⟨m₂, ⟨ls', hexec'⟩, hdone⟩ := scaleTasks_complete now loaders order
      (hstart.runs ⟨ls, hexec⟩)
    exact ⟨ls', m₂, hexec', hdone⟩

/-- A loader that reaches the node of `loadRun` in two scales. -/
def twoScaleLoader : Loader := ⟨0, 1, fun _ => [⟨0, 0, 0⟩]⟩

/-- The smallest scale first, and the largest scale first. -/
theorem scaleUpdates_agree_loadRun :
    ∃ (m m₁ m₂ : State Universe.GalaxyNode) (ps₁ ps₂ : List (Nat × List Nat)),
      (worldMachine Universe.galaxyType fun _ => none).exec (initial _ fun _ => none)
        loadRun.dropLast = some m ∧
      ps₁.map Prod.fst = List.range 16 ∧ ps₂.map Prod.fst = (List.range 16).reverse ∧
      updateScales Universe.galaxyType 20000 [twoScaleLoader] (fun s => (m.world.scales s).nodes.keys)
        ps₁ m = some m₁ ∧
      updateScales Universe.galaxyType 20000 [twoScaleLoader] (fun s => (m.world.scales s).nodes.keys)
        ps₂ m = some m₂ ∧
      SameUpToNew m.world m₁.world m₂.world := by
  obtain ⟨c, hc⟩ : ∃ c, ((worldMachine Universe.galaxyType fun _ => none).exec
      (initial _ fun _ => none) loadRun.dropLast).map State.control = some c ∧ c = .idle :=
    ⟨.idle, by decide +kernel, rfl⟩
  obtain ⟨m, hm, hcontrol⟩ := Option.map_eq_some_iff.mp hc.1
  obtain ⟨hagree, hexists, -⟩ := scaleUpdates_agree (reachable_of_exec rfl hm) 20000 [twoScaleLoader]
    (fun s => (m.world.scales s).nodes.keys) fun _ _ => .refl _
  have hidle := hcontrol.trans hc.2
  obtain ⟨ps₁, m₁, hss₁, hlen₁, h₁⟩ := hexists hidle (List.range 16) (.refl _)
  obtain ⟨ps₂, m₂, hss₂, hlen₂, h₂⟩ := hexists hidle (List.range 16).reverse
    (List.reverse_perm _)
  exact ⟨m, m₁, m₂, ps₁, ps₂, hm, hss₁, hss₂, h₁, h₂,
    hagree _ _ (.sequential (hss₁ ▸ .refl _) hlen₁ h₁)
      (.sequential (hss₂ ▸ List.reverse_perm _) hlen₂ h₂)⟩

end CosmicArchitect.Spatial3D
