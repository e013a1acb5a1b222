import CosmicArchitect.Spatial3D.FrameSteps
import CosmicArchitect.Universe.WorldTypes

/-!
# A coordinate in range of a loader

`ScaleUpdate` sweeps before it touches, with the time of the frame that just began: a node
that was touched in every frame is swept when the frame is late. `stays_loaded` says that no
other run loses a node in range.
-/

namespace CosmicArchitect.Spatial3D
open Serialize

variable {D : Type} {t : TypeData D} {db : NodeCoord → Option Bytes} {m m' : Frame D}
  {l : FrameLabel D} {s : Nat} {pos : Vector3i}

def Frame.Loaded (m : Frame D) (s : Nat) (pos : Vector3i) : Prop :=
  ∃ a n, m.spatial.world.At s pos a n ∧ n.state = .loaded

theorem loaded_iff_stamp :
    m.Loaded s pos ↔ ∃ T, m.spatial.world.stamp s pos = some (.loaded, T) := by
  constructor
  · rintro ⟨a, n, hat, hstate⟩
    exact ⟨n.lastUpdateTime, by rw [stamp_of_at hat, Node.stamp, hstate]⟩
  · rintro ⟨T, hT⟩
    obtain ⟨a, n, hat, hstamp⟩ := at_of_stamp hT
    exact ⟨a, n, hat, congrArg Prod.fst hstamp⟩

/-- A loader reaches the coordinate in every frame of a world that is never unloaded. -/
def StaysInRange (s : Nat) (pos : Vector3i) (m : Frame D) : FrameLabel D → Prop
  | .scaleUpdate s' _ _ => s' = s →
      m.simulationUnloading = false ∧ pos ∈ nodesAroundLoaders m.loaders s
  | .unloadWorld => False
  | _ => True

/-- No frame begins more than `node_keepalive` after the previous one while the node of the
coordinate is Loaded. -/
def Timely (t : TypeData D) (s : Nat) (pos : Vector3i) (m : Frame D) : FrameLabel D → Prop
  | .simulationUpdate now => m.Loaded s pos → now - m.frameStartTime ≤ t.nodeKeepalive
  | _ => True

/-- The `ScaleUpdate` of scale `s` has run in this frame. -/
def Phase.Updated (s : Nat) : Phase → Prop
  | .scaleTasks left => s ∉ left
  | .moduleUpdates => True
  | _ => False

/-- The sweep of the frame will not find the node of the coordinate too old. -/
structure Fresh (t : TypeData D) (s : Nat) (pos : Vector3i) (m : Frame D) : Prop where
  unloading : m.spatial.world.unloading = false
  nodup : ∀ left, m.phase = .scaleTasks left → left.Nodup
  touched : ∀ T, m.spatial.world.stamp s pos = some (.loaded, T) → m.phase.Updated s →
    T = m.frameStartTime
  kept : ∀ T, m.spatial.world.stamp s pos = some (.loaded, T) →
    m.frameStartTime - T ≤ t.nodeKeepalive

/-- A step other than `ScaleUpdate` keeps a Loaded node Loaded. -/
theorem Visit.loaded {now T : Int} {y : Option Stamp} (h : Visit now (some (.loaded, T)) y) :
    y = some (.loaded, T) := by
  cases h with
  | keep => rfl

theorem Visit.of_loaded {now T : Int} {x : Option Stamp} (h : Visit now x (some (.loaded, T))) :
    x = some (.loaded, T) ∨ T = now := by
  cases h with
  | keep => exact Or.inl rfl
  | load => exact Or.inr rfl

theorem Sweep.loaded {w : World D} {s s' : Nat} {now T : Int} {y : Option Stamp}
    (h : Sweep t w s now s' (some (.loaded, T)) y)
    (hyoung : s' = s → ¬ (w.unloading ∨ t.nodeKeepalive < now - T)) : y = some (.loaded, T) := by
  cases h with
  | keep => rfl
  | mark hs hold => exact absurd hold (hyoung hs)

theorem Sweep.of_loaded {w : World D} {s s' : Nat} {now T : Int} {x : Option Stamp}
    (h : Sweep t w s now s' x (some (.loaded, T))) : x = some (.loaded, T) := by
  cases h with
  | keep => rfl

theorem fresh_frame (hk : 0 ≤ t.nodeKeepalive) (hr : (frameMachine t db).Reachable m)
    (hf : Fresh t s pos m) (hrange : StaysInRange s pos m l) (htime : Timely t s pos m l)
    (hl : ∀ s order fresh, l ≠ .scaleUpdate s order fresh) (h : frameStep t m l = some m') :
    Fresh t s pos m' := by
  have hvisit := frame_visit hr h hl s pos
  have hback : ∀ T, m'.spatial.world.stamp s pos = some (.loaded, T) →
      m.spatial.world.stamp s pos = some (.loaded, T) ∨ T = m.frameStartTime :=
    fun T hT => (hT ▸ hvisit).of_loaded
  have hkept : ∀ T, m'.spatial.world.stamp s pos = some (.loaded, T) →
      m.frameStartTime - T ≤ t.nodeKeepalive := by
    intro T hT
    rcases hback T hT with hT | rfl
    · exact hf.kept T hT
    · omega
  have htouched : m.phase.Updated s → ∀ T, m'.spatial.world.stamp s pos = some (.loaded, T) →
      T = m.frameStartTime := by
    intro hup T hT
    rcases hback T hT with hT | rfl
    · exact hf.touched T hT hup
    · rfl
  have hscale : ∀ T, m'.spatial.world.stamp s pos = some (.loaded, T) →
      s ∈ List.range t.maxScale := by
    intro T hT
    have hsound : Sound t Guard.any m'.spatial.world := frame_sound (.step hr trivial h)
    exact List.mem_range.mpr (hsound.placed.hasNode_lt (hsound.hasNode_iff.mpr (by rw [hT]; rfl)))
  have hun : m'.spatial.world.unloading = false := by
    rcases frame_unloading hr h with heq | ⟨rfl, -⟩
    · exact heq.trans hf.unloading
    · exact hrange.elim
  have hall : ∀ left, Phase.scaleTasks (List.range t.maxScale) = .scaleTasks left →
      left.Nodup := by
    rintro left hleft
    cases hleft
    exact List.nodup_range
  cases frameStep_move h with
  | call _ _ => exact ⟨hun, hf.nodup, fun T hT hup => htouched hup T hT, hkept⟩
  | setLoaders _ => exact ⟨hun, hf.nodup, hf.touched, hf.kept⟩
  | setSimulationUnloading _ => exact ⟨hun, hf.nodup, hf.touched, hf.kept⟩
  | skipLoadCommands _ _ =>
    exact ⟨hun, hall,
      fun T hT hup => absurd (hscale T hT) hup, hkept⟩
  | loadCommandsDone _ _ =>
    exact ⟨hun, hall,
      fun T hT hup => absurd (hscale T hT) hup, hkept⟩
  | scaleTasksDone hp =>
    have hup : m.phase.Updated s := by
      rw [hp]
      exact List.not_mem_nil
    exact ⟨hun, fun left hp => (by cases hp), fun T hT _ => htouched hup T hT, hkept⟩
  | simulationUpdate hp _ =>
    have hup : m.phase.Updated s := by
      rw [hp]
      exact trivial
    refine ⟨hun, fun left hp => (by cases hp), fun T _ hup => hup.elim, fun T hT => ?_⟩
    rw [htouched hup T hT]
    exact htime (loaded_iff_stamp.mpr ⟨T, hT⟩)
  | scaleUpdate _ _ _ _ => exact absurd rfl (hl _ _ _)
  | unloadWorld _ _ => exact hrange.elim
  | _ => exact ⟨hun, fun left hp => (by cases hp), fun T _ hup => hup.elim, hkept⟩

/-- `ScaleUpdate` touches the coordinate after it was found young enough. -/
theorem fresh_scaleUpdate {s' : Nat} {order : List Vector3i} {fresh : List Nat}
    (hk : 0 ≤ t.nodeKeepalive) (hr : (frameMachine t db).Reachable m) (hf : Fresh t s pos m)
    (hrange : StaysInRange s pos m (.scaleUpdate s' order fresh))
    (h : frameStep t m (.scaleUpdate s' order fresh) = some m') :
    Fresh t s pos m' ∧ (m.Loaded s pos → m'.Loaded s pos) := by
  cases frameStep_move h with
  | call hcl _ => cases hcl
  | @scaleUpdate _ _ _ left st hp hs hfresh hst =>
    obtain ⟨⟨y, hsweep, hy⟩, hun⟩ := scaleUpdate_stamp hr hfresh hst s pos
    have hun' : st.world.unloading = false := hun.trans hf.unloading
    have hleft := hf.nodup left hp
    have hnodup : ∀ left', Phase.scaleTasks (left.erase s') = .scaleTasks left' → left'.Nodup := by
      rintro left' hleft'
      cases hleft'
      exact hleft.erase s'
    have hkeep : ∀ T, m.spatial.world.stamp s pos = some (.loaded, T) → y = some (.loaded, T) := by
      intro T hT
      rw [hT] at hsweep
      refine hsweep.loaded fun _ hold => ?_
      rcases hold with hold | hold
      · rw [hf.unloading] at hold
        cases hold
      · have := hf.kept T hT
        omega
    by_cases heq : s' = s
    · subst heq
      obtain ⟨hsim, hpos⟩ := hrange rfl
      rw [if_pos ⟨hsim, rfl, hpos⟩] at hy
      have htime : ∀ T, st.world.stamp s' pos = some (.loaded, T) → T = m.frameStartTime := by
        intro T hT
        rw [hy] at hT
        exact (congrArg Prod.snd (Option.some.inj hT)).symm
      refine ⟨⟨hun', hnodup, fun T hT _ => htime T hT, fun T hT => ?_⟩, ?_⟩
      · rw [htime T hT]
        show m.frameStartTime - m.frameStartTime ≤ _
        omega
      · rw [loaded_iff_stamp, loaded_iff_stamp]
        rintro ⟨T, hT⟩
        rw [hkeep T hT] at hy
        exact ⟨_, hy⟩
    · have hne : ¬ (m.simulationUnloading = false ∧ s = s' ∧
          pos ∈ nodesAroundLoaders m.loaders s') := fun hc => heq hc.2.1.symm
      rw [if_neg hne] at hy
      have hback : ∀ T, st.world.stamp s pos = some (.loaded, T) →
          m.spatial.world.stamp s pos = some (.loaded, T) := by
        intro T hT
        rw [← hy, hT] at hsweep
        exact hsweep.of_loaded
      refine ⟨⟨hun', hnodup, fun T hT hup => hf.touched T (hback T hT) ?_,
        fun T hT => hf.kept T (hback T hT)⟩, ?_⟩
      · rw [hp]
        exact fun hmem => hup ((List.mem_erase_of_ne (Ne.symm heq)).mpr hmem)
      · rw [loaded_iff_stamp, loaded_iff_stamp]
        rintro ⟨T, hT⟩
        exact ⟨T, hy.trans (hkeep T hT)⟩

theorem fresh_step (hk : 0 ≤ t.nodeKeepalive) (hr : (frameMachine t db).Reachable m)
    (hf : Fresh t s pos m) (hrange : StaysInRange s pos m l) (htime : Timely t s pos m l)
    (h : frameStep t m l = some m') :
    Fresh t s pos m' ∧ (m.Loaded s pos → m'.Loaded s pos) := by
  by_cases hl : ∀ s order fresh, l ≠ .scaleUpdate s order fresh
  · refine ⟨fresh_frame hk hr hf hrange htime hl h, ?_⟩
    rw [loaded_iff_stamp, loaded_iff_stamp]
    rintro ⟨T, hT⟩
    exact ⟨T, (hT ▸ frame_visit hr h hl s pos).loaded⟩
  · simp only [not_forall, not_not] at hl
    obtain ⟨s', order, fresh, rfl⟩ := hl
    exact fresh_scaleUpdate hk hr hf hrange h

/-- The `ScaleUpdate` of a late frame unloads the node, whether a loader reaches it or not. -/
theorem late_scaleUpdate (hr : (frameMachine t db).Reachable m) {order : List Vector3i}
    {fresh : List Nat} (h : frameStep t m (.scaleUpdate s order fresh) = some m') {T : Int}
    (hT : m.spatial.world.stamp s pos = some (.loaded, T))
    (hlate : t.nodeKeepalive < m.frameStartTime - T) : ¬ m'.Loaded s pos := by
  have hsound := frame_sound hr
  have hkeys : pos ∈ (m.spatial.world.scales s).nodes.keys :=
    AList.lookup_isSome.mp (hsound.hasNode_iff.mpr (by rw [hT]; rfl))
  cases frameStep_move h with
  | call hcl _ => cases hcl
  | @scaleUpdate _ _ _ left st hp hs hfresh hst =>
    obtain ⟨st₁, h₁, hrest⟩ := Option.bind_eq_some_iff.mp hst
    have hr₁ := reachable_step (spatial_reachable hr) h₁
    simp only [step] at h₁
    split at h₁
    case isFalse => cases h₁
    case isTrue hc =>
    cases h₁
    have hmarked := scaleUnload_marks order hsound (hc.2.2.mem_iff.mpr hkeys) hT (Or.inr hlate)
    rw [loaded_iff_stamp]
    rintro ⟨T', hT'⟩
    change st.world.stamp s pos = _ at hT'
    split at hrest
    · cases hrest
      cases hmarked.symm.trans hT'
    · have htouch := (touchNodes_stamp db s pos hr₁ hrest).1
      rw [hT'] at htouch
      split at htouch
      · rw [hmarked] at htouch
        cases htouch
      · cases htouch.trans hmarked

/-- The steps of a run in which a loader reaches the coordinate in every frame and no frame
is late. -/
def InTime (t : TypeData D) (s : Nat) (pos : Vector3i) (m : Frame D) (l : FrameLabel D) : Prop :=
  StaysInRange s pos m l ∧ Timely t s pos m l

theorem reach_fresh (hk : 0 ≤ t.nodeKeepalive)
    (hr : (frameMachine t db).Reach (InTime t s pos) m) : Fresh t s pos m := by
  refine hr.invariant (I := Fresh t s pos) ?_ ?_
  · rintro m ⟨now, rfl⟩
    exact ⟨rfl, fun left hp => (by cases hp), fun T hT => (by cases hT), fun T hT => by cases hT⟩
  · intro m l m' hr hf hg h
    exact (fresh_step hk hr.reachable hf hg.1 hg.2 h).1

/-- Once the node of a coordinate in range is Loaded it stays Loaded. -/
theorem stays_loaded (hk : 0 ≤ t.nodeKeepalive) {ls : List (FrameLabel D)} :
    ∀ {m m' : Frame D}, (frameMachine t db).Reach (InTime t s pos) m → m.Loaded s pos →
      (frameMachine t db).Follows (InTime t s pos) m ls →
      (frameMachine t db).exec m ls = some m' → m'.Loaded s pos := by
  induction ls with
  | nil =>
    intro m m' _ hloaded _ he
    cases Option.some.inj he
    exact hloaded
  | cons l ls ih =>
    intro m m' hr hloaded hfollows he
    obtain ⟨m₁, h₁, hrest⟩ := Option.bind_eq_some_iff.mp he
    have hg := hfollows.1
    have hnext := (fresh_step hk hr.reachable (reach_fresh hk hr) hg.1 hg.2 h₁).2
    exact ih (.step hr hg h₁) (hnext hloaded) (hfollows.2 m₁ h₁) hrest

instance (m : Frame D) (s : Nat) (pos : Vector3i) : Decidable (m.Loaded s pos) :=
  decidable_of_iff ((m.spatial.world.stamp s pos).map Prod.fst = some .loaded) (by
    rw [loaded_iff_stamp, Option.map_eq_some_iff]
    exact ⟨fun ⟨x, hx, hst⟩ => ⟨x.2, by rw [hx, ← hst]⟩, fun ⟨T, hT⟩ => ⟨_, hT, rfl⟩⟩)

instance decidableStaysInRange (s : Nat) (pos : Vector3i) (m : Frame D) :
    (l : FrameLabel D) → Decidable (StaysInRange s pos m l)
  | .scaleUpdate s' _ _ => inferInstanceAs (Decidable (s' = s → _))
  | .unloadWorld => isFalse id
  | .worldUpdate | .next _ _ | .unloadCommandsDone | .loadCommandsDone | .scaleTasksDone
  | .simulationUpdate _ | .spatialUpdate | .setLoaders _ | .setSimulationUnloading _
  | .editNode _ _ _ | .nextFrame | .perform _ _ | .finish _ => isTrue trivial

instance decidableTimely (t : TypeData D) (s : Nat) (pos : Vector3i) (m : Frame D) :
    (l : FrameLabel D) → Decidable (Timely t s pos m l)
  | .simulationUpdate _ => inferInstanceAs (Decidable (_ → _))
  | .scaleUpdate _ _ _ | .unloadWorld | .worldUpdate | .next _ _ | .unloadCommandsDone
  | .loadCommandsDone | .scaleTasksDone | .spatialUpdate | .setLoaders _
  | .setSimulationUnloading _ | .editNode _ _ _ | .nextFrame | .perform _ _ | .finish _ =>
    isTrue trivial

instance (t : TypeData D) (s : Nat) (pos : Vector3i) (m : Frame D) (l : FrameLabel D) :
    Decidable (InTime t s pos m l) :=
  inferInstanceAs (Decidable (_ ∧ _))

/-- The node at the origin is created, read and loaded in frames one second apart. -/
def inRangeRun {D : Type} : List (FrameLabel D) :=
  .setLoaders [originLoader] :: frameRun [] [] 0 ++ [.simulationUpdate 1000, .spatialUpdate] ++
    frameRun [.next 0 0, .perform 0 .ok, .finish 0] [⟨0, 0, 0⟩] 1 ++
    [.simulationUpdate 2000, .spatialUpdate] ++ frameRun [.next 1 0] [⟨0, 0, 0⟩] 1 ++
    [.simulationUpdate 3000, .spatialUpdate] ++ frameRun [.next 1 0] [⟨0, 0, 0⟩] 1

/-- One more frame, read at the time `now`. -/
def nextFrameRun {D : Type} (now : Int) : List (FrameLabel D) :=
  [.simulationUpdate now, .spatialUpdate] ++ frameRun [] [⟨0, 0, 0⟩] 1

theorem stays_loaded_nextFrameRun :
    ∃ m m' : Frame Universe.UniverseNode,
      (frameMachine Universe.universeType fun _ => none).exec (createdWorld _) inRangeRun =
        some m ∧
      (frameMachine Universe.universeType fun _ => none).exec m (nextFrameRun 4000) = some m' ∧
      m'.Loaded 0 ⟨0, 0, 0⟩ := by
  have hrun : ((frameMachine Universe.universeType fun _ => none).exec (createdWorld _)
      inRangeRun).any (fun m => decide (m.Loaded 0 ⟨0, 0, 0⟩ ∧
        (frameMachine Universe.universeType fun _ => none).Follows
          (InTime Universe.universeType 0 ⟨0, 0, 0⟩) m (nextFrameRun 4000)) &&
        ((frameMachine Universe.universeType fun _ => none).exec m
          (nextFrameRun 4000)).isSome) = true := by decide +kernel
  obtain ⟨m, hm, hall⟩ := (Option.any_eq_true _ _).mp hrun
  obtain ⟨hdec, hsome⟩ := Bool.and_eq_true_iff.mp hall
  obtain ⟨hloaded, hfollows⟩ := of_decide_eq_true hdec
  obtain ⟨m', hm'⟩ := Option.isSome_iff_exists.mp hsome
  have hreach : (frameMachine Universe.universeType fun _ => none).Reach
      (InTime Universe.universeType 0 ⟨0, 0, 0⟩) m :=
    .exec (.init ⟨0, rfl⟩) (by decide +kernel) hm
  exact ⟨m, m', hm, hm', stays_loaded (by decide) hreach hloaded hfollows hm'⟩

/-- After a frame of two seconds the node in range is unloaded. -/
theorem late_frame_unloads :
    ∃ m m' : Frame Universe.UniverseNode,
      (frameMachine Universe.universeType fun _ => none).Reach (StaysInRange 0 ⟨0, 0, 0⟩) m ∧
      m.Loaded 0 ⟨0, 0, 0⟩ ∧
      (frameMachine Universe.universeType fun _ => none).Follows (StaysInRange 0 ⟨0, 0, 0⟩) m
        (nextFrameRun 5001) ∧
      (frameMachine Universe.universeType fun _ => none).exec m (nextFrameRun 5001) = some m' ∧
      ¬ m'.Loaded 0 ⟨0, 0, 0⟩ := by
  have hrun : ((frameMachine Universe.universeType fun _ => none).exec (createdWorld _)
      inRangeRun).any (fun m => decide (m.Loaded 0 ⟨0, 0, 0⟩ ∧
        (frameMachine Universe.universeType fun _ => none).Follows
          (StaysInRange 0 ⟨0, 0, 0⟩) m (nextFrameRun 5001)) &&
        ((frameMachine Universe.universeType fun _ => none).exec m (nextFrameRun 5001)).any
          (fun m' => decide (¬ m'.Loaded 0 ⟨0, 0, 0⟩))) = true := by decide +kernel
  obtain ⟨m, hm, hall⟩ := (Option.any_eq_true _ _).mp hrun
  obtain ⟨hdec, hlate⟩ := Bool.and_eq_true_iff.mp hall
  obtain ⟨hloaded, hfollows⟩ := of_decide_eq_true hdec
  obtain ⟨m', hm', hlost⟩ := (Option.any_eq_true _ _).mp hlate
  have hreach : (frameMachine Universe.universeType fun _ => none).Reach
      (StaysInRange 0 ⟨0, 0, 0⟩) m :=
    .exec (.init ⟨0, rfl⟩) (by decide +kernel) hm
  exact ⟨m, m', hreach, hloaded, hfollows, hm', of_decide_eq_true hlost⟩

end CosmicArchitect.Spatial3D
