import CosmicArchitect.Spatial3D.LoadedInRange

/-!
# A touch keeps a node (SpatialWorld.cpp:564-641, 677-707)

`TouchNode` renews the time that the sweeps of a scale look at. `WorldDoNodeUnloadCommands` follows
the list of commands instead and does not look at the time again.
-/

namespace CosmicArchitect.Spatial3D
open Serialize

variable {D : Type} {t : TypeData D} {db : NodeCoord → Option Bytes}

/-! ### Where nodes are destroyed -/

/-- The node at the coordinate waits to be destroyed. -/
def World.IsUnloading (w : World D) (s : Nat) (pos : Vector3i) : Prop :=
  ∃ T, w.stamp s pos = some (.unloading, T)

/-- The history of a step names destroyed nodes that were waiting for it. -/
def DestroysUnloading (m m' : State D) : Prop :=
  ∃ events, m'.trace = events ++ m.trace ∧
    ∀ a s pos, Event.destroyed a ⟨pos, s⟩ ∈ events → m.world.IsUnloading s pos

theorem DestroysUnloading.none {m m' : State D} (events : List Event)
    (h : m'.trace = events ++ m.trace) (hnone : ∀ a c, .destroyed a c ∉ events) :
    DestroysUnloading m m' :=
  ⟨events, h, fun a _ _ hmem => absurd hmem (hnone a _)⟩

theorem progressNodeReadTask_events {fresh seed : Nat} {c : NodeCoord} {w : World D} {a : Nat}
    {n : Node D} {poll : Poll D} (h : progressNodeReadTask t fresh seed c w a n = some poll)
    (b : Nat) (d : NodeCoord) : .destroyed b d ∉ poll.events := by
  have hdeserialize : ∀ data, Event.destroyed b d ∉ t.deserializeEvents a c data := by
    intro data hmem
    obtain ⟨i, _, heq⟩ := List.mem_map.mp hmem
    cases heq
  have hgenerate : Event.destroyed b d ∉ t.generateEvents a c := by
    intro hmem
    obtain ⟨i, _, heq⟩ := List.mem_map.mp hmem
    cases heq
  unfold progressNodeReadTask at h
  split at h
  · split at h
    · cases h
      simp
    · cases h
      exact List.not_mem_nil
  · split at h
    · cases h
    · split at h
      · cases h
        dsimp only
        split
        · exact hdeserialize _
        · exact hgenerate
        · exact List.not_mem_nil
      · cases h
        exact List.not_mem_nil
  · cases h
    exact List.not_mem_nil
  · cases h
    exact List.not_mem_nil

theorem progressNodeWriteTask_events {fresh : Nat} {c : NodeCoord} {w : World D} {a : Nat}
    {n : Node D} {poll : Poll D} (h : progressNodeWriteTask t fresh c w a n = some poll)
    (b : Nat) (d : NodeCoord) : .destroyed b d ∉ poll.events := by
  unfold progressNodeWriteTask at h
  split at h
  · split at h
    · cases h
      simp
    · cases h
      exact List.not_mem_nil
  · split at h
    · cases h
    · split at h
      · cases h
        exact List.not_mem_nil
      · cases h
        exact List.not_mem_nil
  · cases h
    exact List.not_mem_nil
  · cases h
    exact List.not_mem_nil

theorem loadNode_events {s : Nat} {now : Int} {fresh seed : Nat} {w : World D} {a : Nat}
    {n : Node D} {poll : Poll D} (h : loadNode t s now fresh seed w a n = some poll)
    (b : Nat) (d : NodeCoord) : .destroyed b d ∉ poll.events := by
  unfold loadNode at h
  split at h
  · split at h
    · cases h
    · next hread =>
      have hevents := progressNodeReadTask_events hread b d
      split at h
      · cases h
        simpa using hevents
      · cases h
        exact hevents
  · cases h
    simp

theorem unloadNode_events {s fresh : Nat} {w : World D} {a : Nat} {n : Node D} {poll : Poll D}
    (h : unloadNode t s fresh w a n = some poll) {b : Nat} {d : NodeCoord}
    (hmem : .destroyed b d ∈ poll.events) : d = ⟨n.position, s⟩ := by
  unfold unloadNode at h
  split at h
  · split at h
    · cases h
    · next hwrite =>
      have hevents := progressNodeWriteTask_events hwrite b d
      split at h
      · cases h
        rw [List.mem_append, List.mem_singleton] at hmem
        cases hmem.resolve_left hevents
        rfl
      · cases h
        exact absurd hmem hevents
  · cases h
    cases List.mem_singleton.mp hmem
    rfl

theorem nextLoad_destroys {m : State D} (fresh seed : Nat) (now : Int) (s it : Nat) :
    DestroysUnloading m (nextLoad t fresh seed m now s it) := by
  unfold nextLoad
  split
  case isFalse => exact .none [] rfl fun _ _ => List.not_mem_nil
  case isTrue =>
  split
  case h_1 => exact .none [] rfl fun _ _ => List.not_mem_nil
  case h_2 pos hpos =>
  split
  case h_2 => exact .none [] rfl fun _ _ => List.not_mem_nil
  case h_1 a hfind =>
  split
  case h_1 => exact .none [] rfl fun _ _ => List.not_mem_nil
  case h_2 n hheap =>
  split
  case isFalse => exact .none [] rfl fun _ _ => List.not_mem_nil
  case isTrue hstate =>
  split
  case h_1 => exact .none [] rfl fun _ _ => List.not_mem_nil
  case h_2 poll hpoll =>
    have hevents : ∀ b d, .destroyed b d ∉ poll.events.reverse := fun b d hmem =>
      loadNode_events hpoll b d (List.mem_reverse.mp hmem)
    split
    · exact .none poll.events.reverse rfl hevents
    · exact .none poll.events.reverse rfl hevents

theorem nextUnload_destroys {m : State D} {G : Guard} (hs : Sound t G m.world) (fresh : Nat)
    (s it : Nat) : DestroysUnloading m (nextUnload t fresh m s it) := by
  unfold nextUnload
  split
  case isFalse => exact .none [] rfl fun _ _ => List.not_mem_nil
  case isTrue =>
  split
  case h_1 => exact .none [] rfl fun _ _ => List.not_mem_nil
  case h_2 pos hpos =>
  obtain ⟨a, n, hat, hstate⟩ := hs.unloading hpos
  simp only [hat.find, hat.heap, hstate, if_true]
  cases hpoll : unloadNode t s fresh m.world a n with
  | none => exact .none [] rfl fun _ _ => List.not_mem_nil
  | some poll =>
    have hevents : ∀ b s' pos', Event.destroyed b ⟨pos', s'⟩ ∈ poll.events.reverse →
        m.world.IsUnloading s' pos' := by
      intro b s' pos' hmem
      cases unloadNode_events hpoll (List.mem_reverse.mp hmem)
      refine ⟨n.lastUpdateTime, ?_⟩
      rw [hs.placed.position hat, stamp_of_at hat, Node.stamp, hstate]
    dsimp only
    split
    · exact ⟨poll.events.reverse, rfl, hevents⟩
    · exact ⟨poll.events.reverse, rfl, hevents⟩

theorem touchNode_events {s : Nat} {pos : Vector3i} {now : Int} {fresh : Nat} {w w' : World D}
    {events : List Event} (h : touchNode t s pos now fresh w = some (w', events))
    (b : Nat) (d : NodeCoord) : .destroyed b d ∉ events := by
  unfold touchNode at h
  split at h
  · cases h
    simp
  · cases h
  · split at h
    · cases h
      exact List.not_mem_nil
    · cases h

theorem step_destroys {m m' : State D} {G : Guard} (hs : Sound t G m.world) {l : Label D}
    (h : step t m l = some m') : DestroysUnloading m m' := by
  have hsame : m'.trace = m.trace → DestroysUnloading m m' := fun htrace =>
    .none [] htrace fun _ _ => List.not_mem_nil
  cases l with
  | touchNode s pos now fresh =>
    simp only [step] at h
    split at h
    · split at h
      · cases h
        exact hsame rfl
      · next w events ht =>
        cases h
        exact .none events.reverse rfl fun b d hmem =>
          touchNode_events ht b d (List.mem_reverse.mp hmem)
    · cases h
  | editNode =>
    simp only [step] at h
    split at h
    · obtain ⟨a, -, rfl⟩ := Option.map_eq_some_iff.mp h
      exact hsame rfl
    · cases h
  | next fresh seed =>
    simp only [step] at h
    split at h
    · split at h
      · cases h
        exact nextLoad_destroys ..
      · cases h
        exact nextUnload_destroys hs ..
      · cases h
    · cases h
  | perform i outcome =>
    simp only [step] at h
    split at h
    · next e he =>
      split at h
      · cases h
        unfold perform
        split
        · exact .none [] rfl fun _ _ => List.not_mem_nil
        · next io hio =>
          cases hkind : e.kind with
          | read => exact .none [] rfl fun _ _ => List.not_mem_nil
          | write => cases outcome <;> exact .none _ rfl fun b d => by simp [nodeWriteIOTask]
      · cases h
    · cases h
  | finish i =>
    simp only [step] at h
    split at h
    · split at h
      · cases h
        unfold finish
        split
        · exact .none [] rfl fun _ _ => List.not_mem_nil
        · exact .none _ rfl fun b d => by simp
      · cases h
    · cases h
  | _ =>
    simp only [step] at h
    split at h
    · cases h
      exact hsame rfl
    · cases h

/-- Touches destroy nothing. -/
theorem touchNodes_events {s : Nat} {now : Int} : ∀ {ps : List (Vector3i × Nat)}
    {m m' : State D}, (worldMachine t db).Reachable m → touchNodes t s now ps m = some m' →
      ∃ events, m'.trace = events ++ m.trace ∧ ∀ a c, Event.destroyed a c ∉ events := by
  intro ps
  induction ps with
  | nil =>
    intro m m' _ h
    cases Option.some.inj h
    exact ⟨[], rfl, fun _ _ => List.not_mem_nil⟩
  | cons p ps ih =>
    intro m m' hr h
    obtain ⟨m₁, h₁, hrest⟩ := Option.bind_eq_some_iff.mp h
    obtain ⟨events, htrace, hnone⟩ := ih (reachable_step hr h₁) hrest
    simp only [step] at h₁
    split at h₁
    · split at h₁
      · cases h₁
        exact ⟨events, htrace, hnone⟩
      · next w created ht =>
        cases h₁
        refine ⟨events ++ created.reverse, ?_, fun a c hmem => ?_⟩
        · rw [htrace, List.append_assoc]
          rfl
        · rw [List.mem_append, List.mem_reverse] at hmem
          exact hmem.elim (hnone a c) (touchNode_events ht a c)
    · cases h₁

variable {m m' : Frame D} {l : FrameLabel D} {s : Nat} {pos : Vector3i}

theorem frame_destroys (hr : (frameMachine t db).Reachable m) (h : frameStep t m l = some m') :
    DestroysUnloading m.spatial m'.spatial := by
  have hsound := frame_sound hr
  cases frameStep_move h with
  | call _ hst => exact step_destroys hsound hst
  | worldUpdate _ hst => exact step_destroys hsound hst
  | loadCommands _ _ hst => exact step_destroys hsound hst
  | unloadWorld _ hst => exact step_destroys hsound hst
  | scaleUpdate _ _ _ hst =>
    obtain ⟨st₁, h₁, hrest⟩ := Option.bind_eq_some_iff.mp hst
    have hr₁ := reachable_step (spatial_reachable hr) h₁
    simp only [step] at h₁
    split at h₁
    · cases h₁
      split at hrest
      · cases hrest
        exact .none [] rfl fun _ _ => List.not_mem_nil
      · obtain ⟨events, htrace, hnone⟩ := touchNodes_events hr₁ hrest
        exact .none events htrace hnone
    · cases h₁
  | _ => exact .none [] rfl fun _ _ => List.not_mem_nil

/-! ### A touched node -/

/-- `TouchNode` is called for the coordinate. -/
def Touches (m : Frame D) (s : Nat) (pos : Vector3i) : FrameLabel D → Prop
  | .scaleUpdate s' _ _ => s' = s ∧ m.simulationUnloading = false ∧
      pos ∈ nodesAroundLoaders m.loaders s
  | _ => False

/-- No touch finds a node that waits to be destroyed, also not by the sweep before it. -/
def TouchesAwake (t : TypeData D) (m : Frame D) : FrameLabel D → Prop
  | .scaleUpdate s order _ => m.simulationUnloading = false →
      ∀ pos ∈ nodesAroundLoaders m.loaders s,
        ¬ (scaleUnloadUnutilizedNodes t s m.frameStartTime order m.spatial.world).IsUnloading s pos
  | _ => True

def NeverUnloaded (_ : Frame D) : FrameLabel D → Prop
  | .unloadWorld => False
  | _ => True

/-- The node at the coordinate was touched at `now` or later and does not wait to be destroyed. -/
structure Kept (m : Frame D) (s : Nat) (pos : Vector3i) (now : Int) : Prop where
  unloading : m.spatial.world.unloading = false
  time : now ≤ m.frameStartTime
  stamp : ∃ st T, m.spatial.world.stamp s pos = some (st, T) ∧ st ≠ .unloading ∧ now ≤ T

theorem frameStartTime_le (h : frameStep t m l = some m') :
    m.frameStartTime ≤ m'.frameStartTime := by
  cases frameStep_move h with
  | simulationUpdate _ hle => exact hle
  | _ => exact Int.le_refl _

theorem never_unloaded (hr : (frameMachine t db).Reach NeverUnloaded m) :
    m.spatial.world.unloading = false := by
  refine hr.invariant (I := fun m => m.spatial.world.unloading = false) ?_ ?_
  · intro m ⟨now, hm⟩
    rw [hm]
    rfl
  · intro m l m' hr ih hg h
    obtain heq | ⟨rfl, _⟩ := frame_unloading hr.reachable h
    · exact heq.trans ih
    · exact hg.elim

theorem kept_of_touch (hr : (frameMachine t db).Reach NeverUnloaded m)
    (htouch : Touches m s pos l) (hawake : TouchesAwake t m l) (h : frameStep t m l = some m') :
    Kept m' s pos m.frameStartTime := by
  cases frameStep_move h with
  | call hcl _ => cases l <;> first | exact htouch.elim | cases hcl
  | @scaleUpdate s' order fresh left st hp hs hfresh hst =>
    obtain ⟨rfl, hsim, hpos⟩ := htouch
    have hun := (scaleUpdate_stamp hr.reachable hfresh hst s' pos).2
    obtain ⟨st₁, h₁, hrest⟩ := Option.bind_eq_some_iff.mp hst
    have hr₁ := reachable_step (spatial_reachable hr.reachable) h₁
    simp only [step] at h₁
    split at h₁
    case isFalse => cases h₁
    case isTrue =>
    cases h₁
    rw [if_neg (by rw [hsim]; exact Bool.false_ne_true)] at hrest
    have hstamp := (touchNodes_stamp db s' pos hr₁ hrest).1
    have hfst : ((nodesAroundLoaders m.loaders s').zip fresh).map Prod.fst =
        nodesAroundLoaders m.loaders s' := by
      rw [List.map_fst_zip]
      omega
    rw [hfst, if_pos ⟨rfl, hpos⟩] at hstamp
    refine ⟨hun.trans (never_unloaded hr), Int.le_refl _, _, _, hstamp, ?_, Int.le_refl _⟩
    have hnot := hawake hsim pos hpos
    cases hswept : (scaleUnloadUnutilizedNodes t s' m.frameStartTime order
        m.spatial.world).stamp s' pos with
    | none => exact fun heq => by cases heq
    | some x => exact fun heq => hnot ⟨x.2, by rw [hswept, ← heq]; rfl⟩
  | _ => exact htouch.elim

/-- While the frames are young enough no step takes the node away. -/
theorem kept_step {now : Int} (hr : (frameMachine t db).Reach NeverUnloaded m)
    (hkept : Kept m s pos now) (hg : NeverUnloaded m l) (h : frameStep t m l = some m')
    (htime : m.frameStartTime ≤ now + t.nodeKeepalive) : Kept m' s pos now := by
  have hun := never_unloaded (.step hr hg h)
  have hle := frameStartTime_le h
  have hfrom := hkept.time
  obtain ⟨st, T, hstamp, hst, hT⟩ := hkept.stamp
  refine ⟨hun, by omega, ?_⟩
  by_cases hl : ∀ s order fresh, l ≠ .scaleUpdate s order fresh
  · have hvisit := frame_visit hr.reachable h hl s pos
    rw [hstamp] at hvisit
    generalize m'.spatial.world.stamp s pos = y at hvisit
    cases hvisit with
    | keep => exact ⟨st, T, rfl, hst, hT⟩
    | load => exact ⟨_, _, rfl, by simp, hfrom⟩
    | destroy => exact absurd rfl hst
  · simp only [not_forall, not_not] at hl
    obtain ⟨s', order, fresh, rfl⟩ := hl
    cases frameStep_move h with
    | call hcl _ => cases hcl
    | @scaleUpdate _ _ _ left stNext hp hs hfresh hstep =>
      obtain ⟨⟨y, hsweep, hy⟩, _⟩ := scaleUpdate_stamp hr.reachable hfresh hstep s pos
      have hsame : y = some (st, T) := by
        rw [hstamp] at hsweep
        generalize hx : some (st, T) = x at hsweep
        cases hsweep with
        | keep => rfl
        | mark _ hold =>
          cases hx
          obtain hold | hold := hold
          · rw [hkept.unloading] at hold
            cases hold
          · omega
      change stNext.world.stamp s pos = _ at hy
      rw [hsame] at hy
      split at hy
      · exact ⟨st, _, hy, hst, hfrom⟩
      · exact ⟨st, T, hy, hst, hT⟩

/-- Between the two states the node at the coordinate was not destroyed. -/
def NotDestroyed (m m' : Frame D) (s : Nat) (pos : Vector3i) : Prop :=
  m'.spatial.world.HasNode s pos ∧ ∃ events, m'.spatial.trace = events ++ m.spatial.trace ∧
    ∀ a, Event.destroyed a ⟨pos, s⟩ ∉ events

theorem Kept.hasNode {now : Int} (h : Kept m s pos now) : m.spatial.world.HasNode s pos := by
  obtain ⟨st, T, hstamp, _⟩ := h.stamp
  obtain ⟨a, n, hat, _⟩ := at_of_stamp hstamp
  rw [World.HasNode, hat.find]
  rfl

theorem exec_frameStartTime {ls : List (FrameLabel D)} {m m' : Frame D}
    (h : (frameMachine t db).exec m ls = some m') : m.frameStartTime ≤ m'.frameStartTime := by
  induction ls generalizing m with
  | nil =>
    cases Option.some.inj h
    exact Int.le_refl _
  | cons l ls ih =>
    obtain ⟨m₁, h₁, hrest⟩ := Option.bind_eq_some_iff.mp h
    have hone := frameStartTime_le h₁
    have hmore := ih hrest
    omega

/-- The node stays while no frame begins later than `node_keepalive` after the touch. -/
theorem kept_run {now : Int} {ls : List (FrameLabel D)} :
    ∀ {m m' : Frame D}, (frameMachine t db).Reach NeverUnloaded m → Kept m s pos now →
      (frameMachine t db).Follows NeverUnloaded m ls →
      (frameMachine t db).exec m ls = some m' → m'.frameStartTime ≤ now + t.nodeKeepalive →
      NotDestroyed m m' s pos := by
  induction ls with
  | nil =>
    intro m m' _ hkept _ he _
    cases Option.some.inj he
    exact ⟨hkept.hasNode, [], rfl, fun _ => List.not_mem_nil⟩
  | cons l ls ih =>
    intro m m' hr hkept hfollows he htime
    obtain ⟨m₁, h₁, hrest⟩ := Option.bind_eq_some_iff.mp he
    have hg := hfollows.1
    have hmore := exec_frameStartTime hrest
    have hone := frameStartTime_le h₁
    have hnext := kept_step hr hkept hg h₁ (by omega)
    obtain ⟨hnode, later, hlater, hnot⟩ := ih (.step hr hg h₁) hnext (hfollows.2 m₁ h₁) hrest htime
    obtain ⟨events, htrace, hdestroys⟩ := frame_destroys hr.reachable h₁
    refine ⟨hnode, later ++ events, by rw [hlater, htrace, List.append_assoc], fun a hmem => ?_⟩
    obtain hmem | hmem := List.mem_append.mp hmem
    · exact hnot a hmem
    · obtain ⟨T, hT⟩ := hdestroys a s pos hmem
      obtain ⟨st, T', hstamp, hst, _⟩ := hkept.stamp
      rw [hstamp] at hT
      exact hst (congrArg Prod.fst (Option.some.inj hT))

/-- Every touch of a run keeps its node for `node_keepalive`. -/
def TouchesKeep (t : TypeData D) (db : NodeCoord → Option Bytes) (m₀ : Frame D)
    (ls : List (FrameLabel D)) : Prop :=
  ∀ before l after rest s pos m m₁ m', ls = before ++ l :: (after ++ rest) →
    (frameMachine t db).exec m₀ before = some m → frameStep t m l = some m₁ →
    Touches m s pos l → (frameMachine t db).exec m₁ after = some m' →
    m'.frameStartTime ≤ m.frameStartTime + t.nodeKeepalive → NotDestroyed m₁ m' s pos

/-- In a run without `UnloadWorld` whose touches find no node that waits to be destroyed, every touch
keeps its node. -/
theorem touches_keep {m₀ : Frame D} (hinit : (frameMachine t db).init m₀)
    {ls : List (FrameLabel D)} (hfollows : (frameMachine t db).Follows
      (fun m l => NeverUnloaded m l ∧ TouchesAwake t m l) m₀ ls) : TouchesKeep t db m₀ ls := by
  intro before l after rest s pos m m₁ m' hls hbefore h htouch hafter htime
  rw [hls] at hfollows
  have hstart := hfollows.behind hbefore
  have hr : (frameMachine t db).Reach NeverUnloaded m :=
    (Library.Machine.Reach.init hinit).exec (hfollows.before.mono fun _ _ hg => hg.1) hbefore
  have hg := hstart.1
  have hkept := kept_of_touch hr htouch hg.2 h
  have hrest := ((hstart.2 m₁ h).before).mono fun _ _ hg => hg.1
  exact kept_run (.step hr hg.1 h) hkept hrest hafter htime

instance (w : World D) (s : Nat) (pos : Vector3i) : Decidable (w.IsUnloading s pos) :=
  decidable_of_iff ((w.stamp s pos).map Prod.fst = some .unloading) (by
    rw [Option.map_eq_some_iff]
    exact ⟨fun ⟨x, hx, hst⟩ => ⟨x.2, by rw [hx, ← hst]⟩, fun ⟨T, hT⟩ => ⟨_, hT, rfl⟩⟩)

instance (m : Frame D) (s : Nat) (pos : Vector3i) (s' : Nat) (order : List Vector3i)
    (fresh : List Nat) : Decidable (Touches m s pos (.scaleUpdate s' order fresh)) :=
  inferInstanceAs (Decidable (_ ∧ _ ∧ _))

instance decidableTouchesAwake (t : TypeData D) (m : Frame D) :
    (l : FrameLabel D) → Decidable (TouchesAwake t m l)
  | .scaleUpdate _ _ _ => inferInstanceAs (Decidable (_ → _))
  | .unloadWorld | .worldUpdate | .next _ _ | .unloadCommandsDone | .loadCommandsDone
  | .scaleTasksDone | .simulationUpdate _ | .spatialUpdate | .setLoaders _
  | .setSimulationUnloading _ | .editNode _ _ _ | .nextFrame | .perform _ _ | .finish _ =>
    isTrue trivial

instance decidableNeverUnloaded (m : Frame D) : (l : FrameLabel D) → Decidable (NeverUnloaded m l)
  | .unloadWorld => isFalse id
  | .scaleUpdate _ _ _ | .worldUpdate | .next _ _ | .unloadCommandsDone | .loadCommandsDone
  | .scaleTasksDone | .simulationUpdate _ | .spatialUpdate | .setLoaders _
  | .setSimulationUnloading _ | .editNode _ _ _ | .nextFrame | .perform _ _ | .finish _ =>
    isTrue trivial

/-- The node at the origin is created, loaded and touched in every frame. -/
theorem touches_keep_inRangeRun :
    ∃ m : Frame Universe.UniverseNode,
      (frameMachine Universe.universeType fun _ => none).exec (createdWorld _)
        (inRangeRun ++ nextFrameRun 3900) = some m ∧
      TouchesKeep Universe.universeType (fun _ => none) (createdWorld _)
        (inRangeRun ++ nextFrameRun 3900) := by
  obtain ⟨m, hm⟩ := Option.isSome_iff_exists.mp
    (show ((frameMachine Universe.universeType fun _ => none).exec (createdWorld _)
      (inRangeRun ++ nextFrameRun 3900)).isSome = true from by decide +kernel)
  exact ⟨m, hm, touches_keep ⟨0, rfl⟩ (by decide +kernel)⟩

/-- The frame that begins two seconds after the last touch, up to its `ScaleUpdate` of scale 0. -/
def lateFrameRun {D : Type} : List (FrameLabel D) :=
  inRangeRun ++ [.simulationUpdate 5001, .spatialUpdate] ++ worldUpdateRun []

/-- The rest of that frame, one more in which the node is written, and a third one. -/
def writtenRun {D : Type} : List (FrameLabel D) :=
  (List.range 15).map (fun s => .scaleUpdate (s + 1) [] []) ++
    [.scaleTasksDone, .simulationUpdate 5101, .spatialUpdate, .nextFrame, .worldUpdate, .next 1 0] ++
    .replicate 17 (.next 2 0) ++ [.unloadCommandsDone] ++ .replicate 17 (.next 2 0) ++
    .loadCommandsDone :: .scaleUpdate 0 [⟨0, 0, 0⟩] [1] ::
    (List.range 15).map (fun s => .scaleUpdate (s + 1) [] []) ++
    [.scaleTasksDone, .perform 0 .ok, .finish 0, .simulationUpdate 5201, .spatialUpdate, .nextFrame,
      .worldUpdate, .next 2 0]

/-- The node is touched on its way out, and destroyed 200 ms later. -/
theorem touched_node_destroyed :
    ∃ m m₁ m' : Frame Universe.UniverseNode,
      (frameMachine Universe.universeType fun _ => none).exec (createdWorld _) lateFrameRun =
        some m ∧
      frameStep Universe.universeType m (.scaleUpdate 0 [⟨0, 0, 0⟩] [1]) = some m₁ ∧
      Touches m 0 ⟨0, 0, 0⟩ (.scaleUpdate 0 [⟨0, 0, 0⟩] [1]) ∧
      (frameMachine Universe.universeType fun _ => none).exec m₁ writtenRun = some m' ∧
      m'.frameStartTime ≤ m.frameStartTime + Universe.universeType.nodeKeepalive ∧
      (∃ older, m'.spatial.trace = .destroyed 0 ⟨⟨0, 0, 0⟩, 0⟩ :: older) ∧
      ¬ TouchesKeep Universe.universeType (fun _ => none) (createdWorld _)
        (lateFrameRun ++ .scaleUpdate 0 [⟨0, 0, 0⟩] [1] :: writtenRun) := by
  have hrun : ((frameMachine Universe.universeType fun _ => none).exec (createdWorld _)
      lateFrameRun).any (fun m =>
        decide (Touches m 0 ⟨0, 0, 0⟩ (.scaleUpdate 0 [⟨0, 0, 0⟩] [1])) &&
        (frameStep Universe.universeType m (.scaleUpdate 0 [⟨0, 0, 0⟩] [1])).any fun m₁ =>
          ((frameMachine Universe.universeType fun _ => none).exec m₁ writtenRun).any fun m' =>
            decide (m'.frameStartTime ≤ m.frameStartTime + Universe.universeType.nodeKeepalive ∧
              m'.spatial.trace.head? = some (.destroyed 0 ⟨⟨0, 0, 0⟩, 0⟩) ∧
              (m'.spatial.world.find 0 ⟨0, 0, 0⟩).isSome = false)) = true := by
    decide +kernel
  obtain ⟨m, hm, hall⟩ := (Option.any_eq_true _ _).mp hrun
  obtain ⟨htouch, hnext⟩ := Bool.and_eq_true_iff.mp hall
  obtain ⟨m₁, hm₁, hafter⟩ := (Option.any_eq_true _ _).mp hnext
  obtain ⟨m', hm', hend⟩ := (Option.any_eq_true _ _).mp hafter
  obtain ⟨htime, hhead, hgone⟩ := of_decide_eq_true hend
  refine ⟨m, m₁, m', hm, hm₁, of_decide_eq_true htouch, hm', htime, ?_, fun h => ?_⟩
  · obtain ⟨older, htrace⟩ := List.head?_eq_some_iff.mp hhead
    exact ⟨older, htrace⟩
  · have hkeep := h lateFrameRun _ writtenRun [] 0 ⟨0, 0, 0⟩ m m₁ m' (by rw [List.append_nil]) hm hm₁
      (of_decide_eq_true htouch) hm' htime
    have hnode := hkeep.1
    rw [World.HasNode, hgone] at hnode
    cases hnode

end CosmicArchitect.Spatial3D
