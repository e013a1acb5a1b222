import CosmicArchitect.Spatial3D.Stamps

/-!
# Stamps over a frame

What one step of a frame does to the stamps of its world. Outside `ScaleUpdate` only load and
unload callbacks change them; `ScaleUpdate` first sweeps its scale and then touches the
coordinates in range of the loaders.
-/

namespace CosmicArchitect.Spatial3D
open Serialize

variable {D : Type} {t : TypeData D} {db : NodeCoord → Option Bytes} {m m' : Frame D}
  {l : FrameLabel D}

theorem touchNodes_loadTime {s : Nat} {now T : Int} : ∀ {ps : List (Vector3i × Nat)}
    {st st' : State D}, touchNodes t s now ps st = some st' →
      st'.control.loadTime = some T → st.control.loadTime = some T := by
  intro ps
  induction ps with
  | nil =>
    intro st st' h hT
    cases Option.some.inj h
    exact hT
  | cons p ps ih =>
    intro st st' h hT
    obtain ⟨st₁, h₁, hrest⟩ := Option.bind_eq_some_iff.mp h
    exact loadTime_step (by simp) h₁ (ih hrest hT)

/-- Load callbacks run with the time of their frame. -/
theorem loadTime_frame (hr : (frameMachine t db).Reachable m) {T : Int}
    (hT : m.spatial.control.loadTime = some T) : m.phase = .loadCommands ∧ T = m.frameStartTime := by
  refine hr.invariant (I := fun m => ∀ T, m.spatial.control.loadTime = some T →
    m.phase = .loadCommands ∧ T = m.frameStartTime) ?_ ?_ T hT
  · rintro m ⟨now, rfl⟩ T hT
    cases hT
  · intro m l m' _ ih _ h T hT
    -- outside `loadCommands` there is no time to keep
    have hnone : ∀ {phase : Phase}, m.phase = phase → phase ≠ .loadCommands →
        m.spatial.control.loadTime ≠ some T :=
      fun hp hne hT => hne (hp.symm.trans (ih T hT).1)
    have hidle : m.spatial.control = .idle → m.spatial.control.loadTime ≠ some T :=
      fun hc hT => by rw [hc] at hT; cases hT
    cases frameStep_move h with
    | @call _ cl st hcl hst =>
      have hne : ∀ now, cl ≠ .worldDoNodeLoadCommands now := by
        rintro now rfl
        cases l <;> cases hcl
      exact ih T (loadTime_step hne hst hT)
    | worldUpdate hp hst => exact absurd (loadTime_step (by simp) hst hT) (hnone hp (by simp))
    | unloadWorld hp hst => exact absurd (loadTime_step (by simp) hst hT) (hnone hp (by simp))
    | loadCommands _ hc hst =>
      simp only [step, if_pos hc] at hst
      cases hst
      cases hT
      exact ⟨rfl, rfl⟩
    | scaleUpdate hp _ _ hst =>
      obtain ⟨st₁, h₁, hrest⟩ := Option.bind_eq_some_iff.mp hst
      have hT₁ : st₁.control.loadTime = some T := by
        split at hrest
        · cases hrest; exact hT
        · exact touchNodes_loadTime hrest hT
      exact absurd (loadTime_step (by simp) h₁ hT₁) (hnone hp (by simp))
    | skipLoadCommands _ hc => exact absurd hT (hidle hc)
    | loadCommandsDone _ hc => exact absurd hT (hidle hc)
    | scaleTasksDone hp => exact absurd hT (hnone hp (by simp))
    | simulationUpdate hp _ => exact absurd hT (hnone hp (by simp))
    | destroyWorld hp _ _ => exact absurd hT (hnone hp (by simp))
    | keepWorld hp _ => exact absurd hT (hnone hp (by simp))
    | nextFrame hp => exact absurd hT (hnone hp (by simp))
    | setLoaders _ => exact ih T hT
    | setSimulationUnloading _ => exact ih T hT

/-- Outside `ScaleUpdate` a coordinate changes only in a load or unload callback. -/
theorem frame_visit (hr : (frameMachine t db).Reachable m) (h : frameStep t m l = some m')
    (hl : ∀ s order fresh, l ≠ .scaleUpdate s order fresh) (s : Nat) (pos : Vector3i) :
    Visit m.frameStartTime (m.spatial.world.stamp s pos) (m'.spatial.world.stamp s pos) := by
  cases frameStep_move h with
  | call hcl hst =>
    cases l with
    | next fresh seed =>
      cases hcl
      exact (next_visited (frame_sound hr) (fun T hT => (loadTime_frame hr hT).2) hst).stamp s pos
    | editNode =>
      cases hcl
      exact ((editNode_alike hst).visited _).stamp s pos
    | perform =>
      cases hcl
      exact ((perform_alike hst).visited _).stamp s pos
    | finish =>
      cases hcl
      exact ((finish_alike hst).visited _).stamp s pos
    | _ => cases hcl
  | worldUpdate _ hst =>
    simp only [step] at hst
    split at hst
    · cases hst; exact .keep
    · cases hst
  | loadCommands _ hc hst =>
    simp only [step, if_pos hc] at hst
    cases hst
    exact .keep
  | unloadWorld _ hst =>
    simp only [step] at hst
    split at hst
    · cases hst; exact .keep
    · cases hst
  | scaleUpdate _ _ _ _ => exact absurd rfl (hl _ _ _)
  | _ => exact .keep

theorem scaleUpdate_stamp (hr : (frameMachine t db).Reachable m) {s : Nat}
    {order : List Vector3i} {fresh : List Nat} {st : State D}
    (hfresh : fresh.length = (nodesAroundLoaders m.loaders s).length)
    (h : m.scaleUpdate t s order fresh = some st) (s' : Nat) (pos : Vector3i) :
    (∃ y, Sweep t m.spatial.world s m.frameStartTime s' (m.spatial.world.stamp s' pos) y ∧
      st.world.stamp s' pos =
        if m.simulationUnloading = false ∧ s' = s ∧ pos ∈ nodesAroundLoaders m.loaders s then
          some (y.elim .loading Prod.fst, m.frameStartTime)
        else y) ∧ st.world.unloading = m.spatial.world.unloading := by
  have hreach := spatial_reachable hr
  obtain ⟨st₁, h₁, hrest⟩ := Option.bind_eq_some_iff.mp h
  have hr₁ := reachable_step hreach h₁
  simp only [step] at h₁
  split at h₁
  case isFalse => cases h₁
  case isTrue =>
  obtain ⟨hsweep, hun⟩ :=
    scaleUnload_sweep (t := t) s m.frameStartTime s' pos order (frame_sound hr)
  cases h₁
  split at hrest
  · next hstop =>
    cases hrest
    refine ⟨⟨_, hsweep, ?_⟩, hun⟩
    simp [hstop]
  · next hgo =>
    obtain ⟨htouch, hun'⟩ := touchNodes_stamp db s' pos hr₁ hrest
    have hfst : ((nodesAroundLoaders m.loaders s).zip fresh).map Prod.fst =
        nodesAroundLoaders m.loaders s := by
      rw [List.map_fst_zip]
      omega
    rw [hfst] at htouch
    refine ⟨⟨_, hsweep, ?_⟩, hun'.trans hun⟩
    rw [htouch]
    simp [hgo]

/-- Only `UnloadWorld` sets the flag, and nothing clears it. -/
theorem frame_unloading (hr : (frameMachine t db).Reachable m) (h : frameStep t m l = some m') :
    m'.spatial.world.unloading = m.spatial.world.unloading ∨
      l = .unloadWorld ∧ m'.spatial.world.unloading = true := by
  cases frameStep_move h with
  | call hcl hst =>
    left
    cases l with
    | next fresh seed =>
      cases hcl
      exact (next_visited (frame_sound hr) (fun T hT => (loadTime_frame hr hT).2) hst).unloading
    | editNode => cases hcl; exact (editNode_alike hst).unloading
    | perform => cases hcl; exact (perform_alike hst).unloading
    | finish => cases hcl; exact (finish_alike hst).unloading
    | _ => cases hcl
  | worldUpdate _ hst =>
    simp only [step] at hst
    split at hst
    · cases hst; exact Or.inl rfl
    · cases hst
  | loadCommands _ hc hst =>
    simp only [step, if_pos hc] at hst
    cases hst
    exact Or.inl rfl
  | unloadWorld _ hst =>
    simp only [step] at hst
    split at hst
    · cases hst; exact Or.inr ⟨rfl, rfl⟩
    · cases hst
  | scaleUpdate _ _ hfresh hst =>
    exact Or.inl (scaleUpdate_stamp hr hfresh hst 0 ⟨0, 0, 0⟩).2
  | _ => exact Or.inl rfl

/-! ### A whole frame -/

/-- A world right after its load event, at time 0. -/
def createdWorld (D : Type) : Frame D :=
  { spatial := initial D fun _ => none, frameStartTime := 0 }

/- A loader at half a node size on every axis with `dist_per_lod` 1: its sphere holds the
   node at the origin alone. -/
def originLoader : Loader := ⟨0, 0, fun _ => [⟨0, 0, 0⟩]⟩

/-- `WorldUpdate` of a world with 16 scales; `loads` are the polls of its load commands. -/
def worldUpdateRun (loads : List (FrameLabel D)) : List (FrameLabel D) :=
  [.nextFrame, .worldUpdate] ++ .replicate 17 (.next 1 0) ++ [.unloadCommandsDone] ++ loads ++
    .replicate 17 (.next 1 0) ++ [.loadCommandsDone]

/-- A frame around `originLoader`, up to the module updates. -/
def frameRun (loads : List (FrameLabel D)) (order : List Vector3i) (fresh : Nat) :
    List (FrameLabel D) :=
  worldUpdateRun loads ++ .scaleUpdate 0 order [fresh] ::
    (List.range 15).map (fun s => .scaleUpdate (s + 1) [] []) ++ [.scaleTasksDone]

end CosmicArchitect.Spatial3D
