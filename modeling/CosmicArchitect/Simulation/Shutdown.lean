import CosmicArchitect.Simulation.Closing
import CosmicArchitect.Spatial3D.TaskStates

/-!
# Shutdown terminates

Each world is followed through the loop of `SimulationUnload` by itself: it loses its nodes,
and the next `spatial3d::Update` destroys it.
-/

namespace CosmicArchitect.UniverseSimulation
open Library Serialize Spatial3D Universe

/-! ### The loop -/

def SpatialWorld.maxScale : SpatialWorld → Nat
  | .universe _ => universeType.maxScale
  | .galaxy _ => galaxyType.maxScale

/-- The background work of the task is done, if there is any. -/
def SpatialWorld.TaskFinished (τ : Nat) : SpatialWorld → Prop
  | .universe m => ∀ io ∈ m.world.tasks τ, io.finished = true
  | .galaxy m => ∀ io ∈ m.world.tasks τ, io.finished = true

/-- `WorldDoNodeUnloadCommands` is called for the world at `a`. -/
def Label.UnloadCommands (a : Nat) : Label → Prop
  | .universeWorld _ b l => b = a ∧ l = .worldDoNodeUnloadCommands
  | .galaxyWorld b l => b = a ∧ l = .worldDoNodeUnloadCommands
  | _ => False

/-- `ScaleUnloadUnutilizedNodes` is called for a scale of the world at `a`. -/
def Label.Scans (a s : Nat) : Label → Prop
  | .universeWorld _ b l => b = a ∧ ∃ now order, l = .scaleUnloadUnutilizedNodes s now order
  | .galaxyWorld b l => b = a ∧ ∃ now order, l = .scaleUnloadUnutilizedNodes s now order
  | _ => False

/-- The loop: its state says whether the loop is at its condition. `SimulationUpdate` ends with the
dispatch, and no update begins once the unloading is done. -/
def loopStep (x : Simulation × Bool) (l : Label) : Option (Simulation × Bool) :=
  if x.2 = true ∧ UnloadDone x.1 then none
  else
    match l with
    | .simulationUnloaded => none
    | .next database =>
      (step x.1 (.next database)).map fun s => (s, decide (s.control = .idle))
    | l => (step x.1 l).map fun s => (s, false)

/-- The loop from the state in which it is entered. -/
def loopMachine (s : Simulation) : Machine (Simulation × Bool) Label where
  init x := x = (s, true)
  step := loopStep

/-- A step of the loop is one of the simulation; a dispatch that ends leads to the condition. -/
theorem loopStep_cases {x x' : Simulation × Bool} {l : Label} (h : loopStep x l = some x') :
    ¬(x.2 = true ∧ UnloadDone x.1) ∧ l ≠ .simulationUnloaded ∧ step x.1 l = some x'.1 ∧
      (∀ database, l = .next database → x'.1.control = .idle → x'.2 = true) := by
  unfold loopStep at h
  split at h
  · cases h
  · next hnot =>
    refine ⟨hnot, ?_⟩
    split at h
    · cases h
    · obtain ⟨s, hs, rfl⟩ := Option.map_eq_some_iff.mp h
      exact ⟨by simp, hs, fun _ _ hidle => decide_eq_true hidle⟩
    · next l hunloaded hnext =>
      obtain ⟨s, hs, rfl⟩ := Option.map_eq_some_iff.mp h
      exact ⟨hunloaded, hs, fun database hl _ => absurd hl (hnext database)⟩

theorem loopStep_isSome {x : Simulation × Bool} {l : Label} (hnot : ¬(x.2 = true ∧ UnloadDone x.1))
    (hl : l ≠ .simulationUnloaded) (h : (step x.1 l).isSome = true) : loopStep x l ≠ none := by
  obtain ⟨s, hs⟩ := Option.isSome_iff_exists.mp h
  unfold loopStep
  rw [if_neg hnot]
  split
  · exact absurd rfl hl
  · simp [hs]
  · simp [hs]

/-- What happens again and again while the loop goes on: the parts of `SimulationUpdate`, and
every background task finishes. -/
structure Updates {s₀ : Simulation} (r : (loopMachine s₀).Endless) : Prop where
  unloadCommands : ∀ a, r.Recurs fun x l => x.1.worlds a = none ∨ l.UnloadCommands a
  scans : ∀ a scale, r.Recurs fun x l =>
    (∀ world ∈ x.1.worlds a, world.maxScale ≤ scale) ∨ l.Scans a scale
  spatialUpdate : r.Recurs fun _ l => l = .spatialUpdate
  dispatch : r.Recurs fun _ l => l = .dispatch
  tasks : ∀ a τ, r.Recurs fun x _ => ∀ world ∈ x.1.worlds a, world.TaskFinished τ

/-- The loop goes on for ever. -/
def LoopsForever (s : Simulation) : Prop :=
  ∃ r : (loopMachine s).Endless, r.state 0 = (s, true) ∧ Updates r

/-- The loop leaves the defined behaviour. -/
def Faults (s : Simulation) : Prop :=
  ∃ x f, (loopMachine s).Reachable x ∧ x.1.control = .fault f

/-- The loop stands still before its condition fails. -/
def Blocks (s : Simulation) : Prop :=
  ∃ x, (loopMachine s).Reachable x ∧ ¬(x.2 = true ∧ UnloadDone x.1) ∧ ∀ l, loopStep x l = none

def ShutdownEnds (s : Simulation) : Prop := ¬LoopsForever s ∧ ¬Faults s ∧ ¬Blocks s

/-! ### The two kinds of worlds -/

/-- A step of a world of one of the two kinds. -/
abbrev WorldLabel := Spatial3D.Label UniverseNode ⊕ Spatial3D.Label GalaxyNode

/-- The part of a step that is one of the world at the address. -/
def Label.within (a : Nat) : Label → Option WorldLabel
  | .universeWorld _ b l => if b = a then some (.inl l) else none
  | .galaxyWorld b l => if b = a then some (.inr l) else none
  | _ => none

/-- A step with the label while the simulation unloads. -/
inductive SpatialWorld.MovesBy : SpatialWorld → WorldLabel → SpatialWorld → Prop
  | inUniverse {m m' : State UniverseNode} {l : Spatial3D.Label UniverseNode} (hl : l.Unloads)
      (h : Spatial3D.step universeType m l = some m') : MovesBy (.universe m) (.inl l) (.universe m')
  | inGalaxy {m m' : State GalaxyNode} {l : Spatial3D.Label GalaxyNode} (hl : l.Unloads)
      (h : Spatial3D.step galaxyType m l = some m') : MovesBy (.galaxy m) (.inr l) (.galaxy m')

structure Kind (D : Type) where
  type : TypeData D
  world : State D → SpatialWorld
  embed : Spatial3D.Label D → WorldLabel
  project : WorldLabel → Option (Spatial3D.Label D)
  project_embed : ∀ l, project (embed l) = some l
  elim_embed : ∀ (p : (E : Type) → Spatial3D.Label E → Prop) (l : Spatial3D.Label D),
    (embed l).elim (p _) (p _) → p D l
  localNode : type.localNode = true
  drains : ∀ m, (world m).Drains → m.Drains type Guard.any
  unloading : ∀ m, (world m).unloading = m.world.unloading
  nodeCount : ∀ m, (world m).nodeCount = worldGetNodeCount type m.world
  maxScale : ∀ m, (world m).maxScale = type.maxScale
  inj : ∀ {m m' : State D}, world m = world m' → m = m'
  finished : ∀ m τ, (world m).TaskFinished τ → ∀ io ∈ m.world.tasks τ, io.finished = true
  moves : ∀ {m : State D} {x : WorldLabel} {w' : SpatialWorld}, (world m).MovesBy x w' →
    ∃ l m', x = embed l ∧ l.Unloads ∧ Spatial3D.step type m l = some m' ∧ w' = world m'

def universeKind : Kind UniverseNode where
  type := universeType
  world := .universe
  embed := .inl
  project := Sum.getLeft?
  project_embed _ := rfl
  elim_embed _ _ h := h
  localNode := rfl
  drains _ h := h.1
  unloading _ := rfl
  nodeCount _ := rfl
  maxScale _ := rfl
  inj h := by cases h; rfl
  finished _ _ h := h
  moves h := by
    cases h with
    | inUniverse hl h => exact ⟨_, _, rfl, hl, h, rfl⟩

def galaxyKind : Kind GalaxyNode where
  type := galaxyType
  world := .galaxy
  embed := .inr
  project := Sum.getRight?
  project_embed _ := rfl
  elim_embed _ _ h := h
  localNode := rfl
  drains _ h := h.1
  unloading _ := rfl
  nodeCount _ := rfl
  maxScale _ := rfl
  inj h := by cases h; rfl
  finished _ _ h := h
  moves h := by
    cases h with
    | inGalaxy hl h => exact ⟨_, _, rfl, hl, h, rfl⟩

variable {s s' : Simulation} {l : Label} {a : Nat}

/-- A step moves the world at an address by the part that is one of it; any other step leaves the
world or destroys it. -/
theorem closing_within {w : SpatialWorld} (h : ClosingStep s s' [] l) (ha : s.worlds a = some w) :
    (∃ x w', l.within a = some x ∧ w.MovesBy x w' ∧ s'.worlds a = some w') ∨
      l.within a = none ∧ (s'.worlds a = none ∨ s'.worlds a = some w) := by
  cases h with
  | @universeWorld i b l m m' hb hl hstep heq =>
    subst heq
    by_cases hba : b = a
    · subst hba
      cases ha.symm.trans hb
      exact Or.inl ⟨_, _, if_pos rfl, .inUniverse hl hstep, Function.update_self ..⟩
    · refine Or.inr ⟨if_neg hba, Or.inr ?_⟩
      exact (Function.update_of_ne (Ne.symm hba) ..).trans ha
  | @galaxyWorld b l m m' hb hl hstep heq =>
    subst heq
    by_cases hba : b = a
    · subst hba
      cases ha.symm.trans hb
      exact Or.inl ⟨_, _, if_pos rfl, .inGalaxy hl hstep, Function.update_self ..⟩
    · refine Or.inr ⟨if_neg hba, Or.inr ?_⟩
      exact (Function.update_of_ne (Ne.symm hba) ..).trans ha
  | destroy hidle heq =>
    subst heq
    refine Or.inr ⟨rfl, ?_⟩
    simp only [spatialUpdate]
    split
    · exact Or.inl rfl
    · exact Or.inr ha
  | dispatch hidle heq => subst heq; exact Or.inr ⟨rfl, Or.inr ha⟩
  | unload hdispatching hids hworkers hcontexts heq => cases hids
  | cleaned hdispatching hids heq => subst heq; exact Or.inr ⟨rfl, Or.inr ha⟩

theorem Label.UnloadCommands.within (h : l.UnloadCommands a) :
    ∃ x, l.within a = some x ∧
      x.elim (· = .worldDoNodeUnloadCommands) (· = .worldDoNodeUnloadCommands) := by
  cases l with
  | universeWorld i b l => exact ⟨.inl l, if_pos h.1, h.2⟩
  | galaxyWorld b l => exact ⟨.inr l, if_pos h.1, h.2⟩
  | _ => exact h.elim

theorem Label.Scans.within {scale : Nat} (h : l.Scans a scale) :
    ∃ x, l.within a = some x ∧
      x.elim (fun l => ∃ now order, l = .scaleUnloadUnutilizedNodes scale now order)
        fun l => ∃ now order, l = .scaleUnloadUnutilizedNodes scale now order := by
  cases l with
  | universeWorld i b l => exact ⟨.inl l, if_pos h.1, h.2⟩
  | galaxyWorld b l => exact ⟨.inr l, if_pos h.1, h.2⟩
  | _ => exact h.elim

namespace Kind
variable {D : Type} (k : Kind D)

/-- The part of a step that is one of the world of this kind at the address. -/
def label (a : Nat) (l : Label) : Option (Spatial3D.Label D) := (l.within a).bind k.project

variable {m : State D}

/-- What a step of the loop does to a world of the kind. -/
theorem step_cases (h : ClosingStep s s' [] l) (ha : s.worlds a = some (k.world m)) :
    (∃ l' m', l.within a = some (k.embed l') ∧ k.label a l = some l' ∧ l'.Unloads ∧
      Spatial3D.step k.type m l' = some m' ∧ s'.worlds a = some (k.world m')) ∨
    l.within a = none ∧ k.label a l = none ∧
      (s'.worlds a = none ∨ s'.worlds a = some (k.world m)) := by
  rcases closing_within h ha with ⟨x, w', hx, hmoves, hw'⟩ | ⟨hnone, hstays⟩
  · obtain ⟨l', m', rfl, hl, hstep, rfl⟩ := k.moves hmoves
    refine Or.inl ⟨l', m', hx, ?_, hl, hstep, hw'⟩
    rw [label, hx, Option.bind_some, k.project_embed]
  · exact Or.inr ⟨hnone, by rw [label, hnone, Option.bind_none], hstays⟩

theorem label_of_elim (h : ClosingStep s s' [] l) (ha : s.worlds a = some (k.world m))
    (p : (E : Type) → Spatial3D.Label E → Prop)
    (hp : ∃ x, l.within a = some x ∧ x.elim (p _) (p _)) : ∃ l', k.label a l = some l' ∧ p D l' := by
  obtain ⟨x, hx, hp⟩ := hp
  rcases k.step_cases h ha with ⟨l', m', hwithin, hlabel, -⟩ | ⟨hnone, -⟩
  · cases hx.symm.trans hwithin
    exact ⟨l', hlabel, k.elim_embed p l' hp⟩
  · cases hx.symm.trans hnone

end Kind

/-! ### A world gets empty -/

section Run
variable {s₀ : Simulation} {r : (loopMachine s₀).Endless} {N : Nat}

theorem going (r : (loopMachine s₀).Endless) (n : Nat) : r.label n ≠ .simulationUnloaded :=
  (loopStep_cases (r.steps n)).2.1

theorem moved (r : (loopMachine s₀).Endless) (n : Nat) :
    step (r.state n).1 (r.label n) = some (r.state (n + 1)).1 :=
  (loopStep_cases (r.steps n)).2.2.1

/-- From `N` on all commands are dispatched, and the loop goes on. -/
structure Emptying (r : (loopMachine s₀).Endless) (N : Nat) : Prop where
  updates : Updates r
  closing : ∀ n, N ≤ n → Closing (r.state n).1 []

theorem Emptying.step (h : Emptying r N) {n : Nat} (hn : N ≤ n) :
    ClosingStep (r.state n).1 (r.state (n + 1)).1 [] (r.label n) :=
  closing_cases (h.closing n hn) (going r n) (moved r n)

theorem Emptying.unloading (h : Emptying r N) {n : Nat} (hn : N ≤ n) {w : SpatialWorld}
    (hw : (r.state n).1.worlds a = some w) : w.unloading = true := by
  rcases (h.closing n hn).worlds a w hw with hun | ⟨id, hid, -⟩
  · exact hun
  · cases hid

/-- A world that is never destroyed gets empty. -/
theorem Emptying.empties {D : Type} (k : Kind D) (h : Emptying r N) {m : Nat → State D}
    (hm : ∀ j, (r.state (N + j)).1.worlds a = some (k.world (m j))) :
    ∃ n, ∀ j, n ≤ j → (k.world (m j)).nodeCount = 0 := by
  have hstep : ∀ j, ClosingStep (r.state (N + j)).1 (r.state (N + (j + 1))).1 [] (r.label (N + j)) :=
    fun j => h.step (Nat.le_add_right N j)
  have hlabels : ∀ j, ∀ l ∈ k.label a (r.label (N + j)), l.Unloads := by
    intro j l hl
    rcases k.step_cases (hstep j) (hm j) with ⟨l', m', -, hl', hunloads, -⟩ | ⟨-, hnone, -⟩
    · cases hl.symm.trans hl'
      exact hunloads
    · cases hl.symm.trans hnone
  -- The steps of the world, seen as a run of its own.
  have hsteps : ∀ j, (worldMachine k.type fun _ => none).stutter.step (m j)
      (k.label a (r.label (N + j))) = some (m (j + 1)) := by
    intro j
    rcases k.step_cases (hstep j) (hm j) with ⟨l, m', -, hl, -, hm', hw⟩ | ⟨-, hl, hnone | hsame⟩
    · rw [hl]
      rw [k.inj (Option.some.inj (hw.symm.trans (hm (j + 1))))] at hm'
      exact hm'
    · cases hnone.symm.trans (hm (j + 1))
    · rw [hl]
      exact congrArg some (k.inj (Option.some.inj (hsame.symm.trans (hm (j + 1)))))
  let r' : (worldMachine k.type fun _ => none).stutter.Endless :=
    ⟨m, fun j => k.label a (r.label (N + j)), hsteps⟩
  have hloop : UnloadLoop r' := by
    refine ⟨hlabels, fun n => ?_, fun scale hscale n => ?_, fun τ n => ?_⟩
    · obtain ⟨i, hi, hcall⟩ := (h.updates.unloadCommands a).drop N n
      refine ⟨i, hi, ?_⟩
      rcases hcall with hnone | hcall
      · cases hnone.symm.trans (hm i)
      · obtain ⟨l, hl, rfl⟩ := k.label_of_elim (hstep i) (hm i)
          (fun _ l => l = .worldDoNodeUnloadCommands) hcall.within
        exact hl
    · obtain ⟨i, hi, hscan⟩ := (h.updates.scans a scale).drop N n
      refine ⟨i, hi, ?_⟩
      rcases hscan with hnone | hscan
      · have hle := hnone _ (hm i)
        rw [k.maxScale] at hle
        omega
      · obtain ⟨l, hl, now, order, rfl⟩ := k.label_of_elim (hstep i) (hm i)
          (fun _ l => ∃ now order, l = .scaleUnloadUnutilizedNodes scale now order) hscan.within
        exact ⟨now, order, hl⟩
    · obtain ⟨i, hi, htask⟩ := (h.updates.tasks a τ).drop N n
      exact ⟨i, hi, k.finished (m i) τ (htask _ (hm i))⟩
  have hdrains : (r'.state 0).Drains k.type Guard.any :=
    k.drains (m 0) ((h.closing N (Nat.le_refl N)).drains a _ (hm 0))
  have hun : (r'.state 0).world.unloading = true :=
    (k.unloading (m 0)).symm.trans (h.unloading (Nat.le_refl N) (hm 0))
  obtain ⟨n, hn⟩ := hloop.empties k.localNode hdrains hun
  exact ⟨n, fun j hj => (k.nodeCount (m j)).trans (hn j hj)⟩

theorem Emptying.destroyed {D : Type} (k : Kind D) (h : Emptying r N) {m : State D}
    (hm : (r.state N).1.worlds a = some (k.world m)) :
    ∃ n, N ≤ n ∧ (r.state n).1.worlds a = none := by
  by_contra hno
  have hlives : ∀ j, ∃ m, (r.state (N + j)).1.worlds a = some (k.world m) := by
    intro j
    induction j with
    | zero => exact ⟨m, hm⟩
    | succ j ih =>
      obtain ⟨m, hm⟩ := ih
      rcases k.step_cases (h.step (Nat.le_add_right N j)) hm with
        ⟨l, m', -, -, -, -, hm'⟩ | ⟨-, -, hnone | hsame⟩
      · exact ⟨m', hm'⟩
      · exact absurd ⟨N + j + 1, by omega, hnone⟩ hno
      · exact ⟨m, hsame⟩
  choose m hm using hlives
  obtain ⟨n, hn⟩ := h.empties k hm
  obtain ⟨i, hi, hlabel⟩ := h.updates.spatialUpdate.drop N n
  have hlabel : r.label (N + i) = .spatialUpdate := hlabel
  have hstep := h.step (Nat.le_add_right N i)
  rw [hlabel] at hstep
  cases hstep with
  | destroy hidle heq =>
    refine hno ⟨N + i + 1, by omega, ?_⟩
    rw [heq]
    simp only [spatialUpdate, hm i, Option.any_some, h.unloading (Nat.le_add_right N i) (hm i),
      hn i hi, beq_self_eq_true, Bool.and_self, if_true]

theorem Emptying.vanished (h : Emptying r N) {n : Nat} (hn : N ≤ n)
    (hnone : (r.state n).1.worlds a = none) : (r.state (n + 1)).1.worlds a = none := by
  have hstep := h.step hn
  generalize r.label n = l at hstep
  cases hstep with
  | @universeWorld i b l m m' hb hl hworld heq =>
    have hne : a ≠ b := by
      rintro rfl
      cases hnone.symm.trans hb
    rw [heq]
    exact (Function.update_of_ne hne ..).trans hnone
  | @galaxyWorld b l m m' hb hl hworld heq =>
    have hne : a ≠ b := by
      rintro rfl
      cases hnone.symm.trans hb
    rw [heq]
    exact (Function.update_of_ne hne ..).trans hnone
  | destroy hidle heq =>
    rw [heq]
    simp only [spatialUpdate, hnone, ite_self]
  | dispatch hidle heq => rw [heq]; exact hnone
  | unload hdispatching hids hworkers hcontexts heq => cases hids
  | cleaned hdispatching hids heq => rw [heq]; exact hnone

theorem Emptying.gone (h : Emptying r N) {n k : Nat} (hn : N ≤ n) (hk : n ≤ k)
    (hnone : (r.state n).1.worlds a = none) : (r.state k).1.worlds a = none := by
  induction hk with
  | refl => exact hnone
  | @step k hk ih => exact h.vanished (Nat.le_trans hn hk) ih

theorem Emptying.dies (h : Emptying r N) (a : Nat) :
    ∃ n, N ≤ n ∧ ∀ k, n ≤ k → (r.state k).1.worlds a = none := by
  have hdies : ∃ n, N ≤ n ∧ (r.state n).1.worlds a = none := by
    cases hw : (r.state N).1.worlds a with
    | none => exact ⟨N, Nat.le_refl N, hw⟩
    | some world =>
      match world, hw with
      | .universe m, hm => exact h.destroyed universeKind hm
      | .galaxy m, hm => exact h.destroyed galaxyKind hm
  obtain ⟨n, hn, hnone⟩ := hdies
  exact ⟨n, hn, fun k hk => h.gone hn hk hnone⟩

/-- Once all worlds are destroyed the unloading is done. -/
theorem Emptying.done (h : Emptying r N) : ∃ n, ∀ k, n ≤ k → UnloadDone (r.state k).1 := by
  have hall : ∀ as : List Nat, ∃ n, N ≤ n ∧ ∀ a ∈ as, (r.state n).1.worlds a = none := by
    intro as
    induction as with
    | nil => exact ⟨N, Nat.le_refl N, fun a ha => by cases ha⟩
    | cons a as ih =>
      obtain ⟨n, hn, hdead⟩ := h.dies a
      obtain ⟨n', hn', hrest⟩ := ih
      refine ⟨max n n', Nat.le_trans hn (Nat.le_max_left n n'), fun b hb => ?_⟩
      rcases List.mem_cons.mp hb with rfl | hb
      · exact hdead _ (Nat.le_max_left n n')
      · exact h.gone hn' (Nat.le_max_right n n') (hrest b hb)
  obtain ⟨n, hn, hnone⟩ := hall (r.state N).1.spatialWorlds
  refine ⟨n, fun k hk => ?_⟩
  have hclosing := h.closing k (Nat.le_trans hn hk)
  refine ⟨hclosing.updating, List.eq_nil_iff_forall_not_mem.mpr fun a ha => ?_⟩
  have hlives : ((r.state k).1.worlds a).isSome = true := (hclosing.live.listed a).mp ha
  have hdead : (r.state k).1.worlds a = none := by
    by_cases hmem : a ∈ (r.state N).1.spatialWorlds
    · exact h.gone hn hk (hnone a hmem)
    · refine h.gone (Nat.le_refl N) (Nat.le_trans hn hk)
        (Option.not_isSome_iff_eq_none.mp fun hsome => hmem ?_)
      exact ((h.closing N (Nat.le_refl N)).live.listed a).mpr hsome
  rw [hdead] at hlives
  cases hlives

end Run

/-! ### The loop ends -/

section Loop
variable {s₀ : Simulation} {r : (loopMachine s₀).Endless} {ids : List Nat}

theorem closing_run (h : Closing (r.state 0).1 ids) (n : Nat) :
    ∃ ids, Closing (r.state n).1 ids := by
  induction n with
  | zero => exact ⟨ids, h⟩
  | succ n ih =>
    obtain ⟨ids, hids⟩ := ih
    obtain ⟨ids', hids', -⟩ := hids.step (going r n) (moved r n)
    exact ⟨ids', hids'⟩

theorem closing_stays {n k : Nat} (h : Closing (r.state n).1 []) (hk : n ≤ k) :
    Closing (r.state k).1 [] := by
  induction hk with
  | refl => exact h
  | @step k _ ih =>
    obtain ⟨ids', hids', hnil, -⟩ := ih.step (going r k) (moved r k)
    rwa [hnil rfl] at hids'

theorem dispatch_control (h : Closing (r.state 0).1 ids) {n : Nat} (hlabel : r.label n = .dispatch) :
    (r.state n).1.control = .idle ∧ (r.state (n + 1)).1.control = .dispatching := by
  obtain ⟨ids, hids⟩ := closing_run h n
  have hstep := closing_cases hids (going r n) (moved r n)
  rw [hlabel] at hstep
  cases hstep with
  | dispatch hidle heq => exact ⟨hidle, by rw [heq]⟩

/-- The first dispatch of the loop takes all commands. -/
theorem dispatched (h : Closing (r.state 0).1 ids) (hu : Updates r) : ∃ N, Emptying r N := by
  obtain ⟨j, -, hj⟩ := hu.dispatch 0
  have hrest : ∀ k, j + 1 ≤ k → ∃ ids, Closing (r.state k).1 ids ∧
      ((r.state k).1.control = .dispatching ∨ ids = []) := by
    intro k hk
    induction hk with
    | refl =>
      obtain ⟨ids, hids⟩ := closing_run h (j + 1)
      exact ⟨ids, hids, Or.inl (dispatch_control h hj).2⟩
    | @step k _ ih =>
      obtain ⟨ids, hids, hcase⟩ := ih
      obtain ⟨ids', hids', hnil, hdispatching⟩ := hids.step (going r k) (moved r k)
      refine ⟨ids', hids', ?_⟩
      rcases hcase with hcontrol | hids
      · exact (hdispatching hcontrol).imp_right fun h => h.2.2
      · exact Or.inr (hnil hids)
  -- The second one finds none.
  obtain ⟨N, hN, hlabel⟩ := hu.dispatch (j + 1)
  obtain ⟨ids, hids, hcase⟩ := hrest N hN
  rcases hcase with hcontrol | rfl
  · cases hcontrol.symm.trans (dispatch_control h hlabel).1
  · exact ⟨N, hu, fun n hn => closing_stays hids hn⟩

/-- The loop comes to its condition between two dispatches. -/
theorem reaches_condition (h : Closing (r.state 0).1 ids) (hu : Updates r) (n : Nat) :
    ∃ k, n ≤ k ∧ (r.state k).2 = true := by
  obtain ⟨j, hnj, hj⟩ := hu.dispatch n
  have hrest : ∀ k, j + 1 ≤ k → (r.state k).1.control = .dispatching ∨
      ∃ i, n ≤ i ∧ (r.state i).2 = true := by
    intro k hk
    induction hk with
    | refl => exact Or.inl (dispatch_control h hj).2
    | @step k hk ih =>
      have hnk : n ≤ k := Nat.le_trans hnj (Nat.le_of_succ_le hk)
      refine ih.elim (fun hcontrol => ?_) Or.inr
      obtain ⟨ids, hids⟩ := closing_run h k
      obtain ⟨_, -, -, hstays⟩ := hids.step (going r k) (moved r k)
      rcases hstays hcontrol with hcontrol | ⟨⟨database, hlabel⟩, hidle, -⟩
      · exact Or.inl hcontrol
      · obtain ⟨-, -, -, hflag⟩ := loopStep_cases (r.steps k)
        exact Or.inr ⟨k + 1, Nat.le_succ_of_le hnk, hflag database hlabel hidle⟩
  obtain ⟨k, hk, hlabel⟩ := hu.dispatch (j + 1)
  rcases hrest k hk with hcontrol | hex
  · cases hcontrol.symm.trans (dispatch_control h hlabel).1
  · exact hex

theorem not_endless (h : Closing (r.state 0).1 ids) (hu : Updates r) : False := by
  obtain ⟨N, hN⟩ := dispatched h hu
  obtain ⟨n, hdone⟩ := hN.done
  obtain ⟨k, hk, hflag⟩ := reaches_condition h hu n
  exact (loopStep_cases (r.steps k)).1 ⟨hflag, hdone k hk⟩

theorem loop_closing {s : Simulation} (h : Closing s ids) {x : Simulation × Bool}
    (hx : (loopMachine s).Reachable x) : ∃ ids, Closing x.1 ids := by
  refine Machine.Reach.invariant (I := fun x => ∃ ids, Closing x.1 ids)
    (fun x hinit => ?_) (fun x l x' _ hI _ hstep => ?_) hx
  · obtain rfl := hinit
    exact ⟨ids, h⟩
  · obtain ⟨ids, hids⟩ := hI
    obtain ⟨-, hl, hmoved, -⟩ := loopStep_cases hstep
    obtain ⟨ids', hids', -⟩ := hids.step hl hmoved
    exact ⟨ids', hids'⟩

/-- No update begins when the condition fails at once. -/
theorem ended {s : Simulation} (hdone : UnloadDone s) (hidle : s.control = .idle) :
    ShutdownEnds s := by
  have hnone : ∀ l, loopStep (s, true) l = none := fun l => if_pos ⟨rfl, hdone⟩
  have hfirst : ∀ {x}, (loopMachine s).Reachable x → x = (s, true) := by
    intro x hx
    refine Machine.Reach.invariant (I := fun x => x = (s, true)) (fun x hinit => hinit)
      (fun x l x' _ hI _ hstep => ?_) hx
    subst hI
    cases (hnone l).symm.trans hstep
  refine ⟨?_, ?_, ?_⟩
  · rintro ⟨r, h0, -⟩
    have hstep := r.steps 0
    rw [h0] at hstep
    cases (hnone _).symm.trans hstep
  · rintro ⟨x, f, hx, hfault⟩
    rw [hfirst hx] at hfault
    cases hidle.symm.trans hfault
  · rintro ⟨x, hx, hnot, -⟩
    rw [hfirst hx] at hnot
    exact hnot ⟨rfl, hdone⟩

end Loop

/-- The loop of `SimulationUnload` ends when it is entered in a closable state, and when there
are no worlds, where its condition fails at once. -/
theorem shutdown_ends {workers : Nat} (hs : (simulationMachine workers).Reachable s) {i : Nat}
    (hcall : step s (.simulationUnload i) = some s') (h : s.spatialWorlds = [] ∨ Closable s) :
    ShutdownEnds s' := by
  simp only [step] at hcall
  split at hcall
  · next hc =>
    cases hcall
    rcases h with hnil | h
    · obtain ⟨hdone, hcontrol⟩ := unloadDone_of_no_worlds i hnil
      exact ended hdone (hcontrol.trans hc.1.1)
    · have hclosing := closing_of_closable (worldsLive_of_reachable hs) hc.1 hc.2 h
      refine ⟨?_, ?_, ?_⟩
      · rintro ⟨r, h0, hu⟩
        rw [show simulationUnload s i = (r.state 0).1 from (congrArg Prod.fst h0).symm] at hclosing
        exact not_endless hclosing hu
      · rintro ⟨x, f, hx, hfault⟩
        obtain ⟨ids, hids⟩ := loop_closing hclosing hx
        rcases hids.running with hc | hc
        · cases hc.symm.trans hfault
        · cases hc.symm.trans hfault
      · rintro ⟨x, hx, hnot, hblocked⟩
        obtain ⟨ids, hids⟩ := loop_closing hclosing hx
        obtain ⟨l, hl, hstep⟩ := closing_progress hids
        exact loopStep_isSome hnot hl hstep (hblocked l)
  · cases hcall

def emptyDatabase : NodeCoord → Option Bytes := fun _ => none

/-- The universe is loaded. -/
def loadedRun : List Label :=
  [.createUniverse 0, .dispatch, .next (some emptyDatabase), .next none]

theorem shutdown_ends_loadedRun :
    ∃ s s', (simulationMachine 1).exec (initial 1) loadedRun = some s ∧
      step s (.simulationUnload 0) = some s' ∧ s.spatialWorlds = [0] ∧ ShutdownEnds s' := by
  obtain ⟨s, s', hs, hcall, hupdating, hlisted, hworld, hentity, hwaiting⟩ :
      ∃ s s', (simulationMachine 1).exec (initial 1) loadedRun = some s ∧
        step s (.simulationUnload 0) = some s' ∧ s.updatingEntities = [universeId] ∧
        s.spatialWorlds = [0] ∧
        s.worlds 0 = some (.universe (Spatial3D.initial UniverseNode emptyDatabase)) ∧
        s.entityFactory universeId = some { typeId := kUniverseType ||| 1, world := some 0 } ∧
        waiting s.threadContexts = [] :=
    ⟨_, _, rfl, rfl, rfl, rfl, rfl, rfl, rfl⟩
  refine ⟨s, s', hs, hcall, hlisted,
    shutdown_ends (Machine.reachable_of_exec rfl hs) hcall (Or.inr ⟨hwaiting, ?_, ?_, ?_, ?_⟩)⟩
  · rw [hupdating]
    intro id hid
    obtain rfl := List.mem_singleton.mp hid
    exact ⟨_, hentity, fun _ => ⟨0, rfl, _, hworld, fun _ => rfl⟩, fun h => absurd h (by decide)⟩
  · rw [hupdating]
    exact (List.nodup_singleton universeId).filter _
  · rw [hlisted, hupdating]
    intro a ha world hw
    obtain rfl := List.mem_singleton.mp ha
    exact Or.inr ⟨universeId, List.mem_singleton.mpr rfl, _, hentity, rfl, rfl⟩
  · rw [hlisted]
    intro a ha world hw
    obtain rfl := List.mem_singleton.mp ha
    cases hworld.symm.trans hw
    intro c k hk
    cases hk

/-! ### A galaxy that waits

The galaxy is loaded by the first dispatch of the loop. It is in no list of the entities that
were asked to be unloaded, so its world stays.
-/

/-- The calls for a world without nodes in one update. -/
def emptyCalls {D : Type} : List (Spatial3D.Label D) :=
  .worldDoNodeUnloadCommands :: passScales ++
    (List.range 16).map fun scale => .scaleUnloadUnutilizedNodes scale 0 []

def emptyGalaxy : State GalaxyNode := Spatial3D.initial GalaxyNode emptyDatabase

/-- The universe is loaded when the galaxy is asked for. -/
def waitingGalaxyRun : List Label :=
  [.createUniverse 0, .dispatch, .next (some emptyDatabase), .next none, .createSimulatedGalaxy 0 1]

def firstUpdates : List Label :=
  emptyCalls.map (.universeWorld 0 0) ++
    [.spatialUpdate, .dispatch, .next (some emptyDatabase), .next none, .next none] ++
  (emptyCalls.map (.universeWorld 0 0) ++ emptyCalls.map (.galaxyWorld 1) ++
    [.spatialUpdate, .dispatch, .next none])

def stuckUpdate : List Label :=
  emptyCalls.map (.galaxyWorld 1) ++ [.spatialUpdate, .dispatch, .next none]

/-- Only the world of the galaxy is left, and nobody unloads it. -/
structure Stuck (x : Simulation × Bool) : Prop where
  condition : x.2 = true
  idle : x.1.control = .idle
  listed : x.1.spatialWorlds = [1]
  live : WorldsLive x.1.listedWorlds
  world : x.1.worlds 1 = some (.galaxy emptyGalaxy)
  contexts : x.1.threadContexts = [{}]

theorem Stuck.elsewhere {x : Simulation × Bool} (h : Stuck x) {a : Nat} (ha : a ≠ 1) :
    x.1.worlds a = none := by
  refine Option.not_isSome_iff_eq_none.mp fun hsome => ha ?_
  have hmem : a ∈ x.1.spatialWorlds := (h.live.listed a).mpr hsome
  rw [h.listed] at hmem
  exact List.mem_singleton.mp hmem

theorem loop_live {s₀ : Simulation} {x x' : Simulation × Bool} {ls : List Label}
    (h : WorldsLive x.1.listedWorlds) (hexec : (loopMachine s₀).exec x ls = some x') :
    WorldsLive x'.1.listedWorlds :=
  Machine.exec_invariant (I := fun x => WorldsLive x.1.listedWorlds) (P := fun _ => True)
    (fun _ _ _ hx _ hstep => hx.effects (step_worldsEffects (loopStep_cases hstep).2.2.1))
    h (fun _ _ => trivial) hexec

theorem emptyGalaxy_drains : (SpatialWorld.galaxy emptyGalaxy).Drains := by
  refine SpatialWorld.NodesDrain.drains (fun c k hk => ?_) ?_ rfl
  · cases hk
  · exact createWorld_sound .galaxy emptyDatabase

theorem loopStep_galaxy {s : Simulation} (b : Bool) {m m' : State GalaxyNode}
    {l : Spatial3D.Label GalaxyNode} (hidle : s.control = .idle) (hlisted : s.spatialWorlds ≠ [])
    (hm : s.worlds 1 = some (.galaxy m)) (hl : l.Unloads)
    (hstep : Spatial3D.step galaxyType m l = some m') (hfailed : ¬m'.Failed) :
    loopStep (s, b) (.galaxyWorld 1 l) =
      some ({ s with worlds := Function.update s.worlds 1 (some (.galaxy m')) }, false) := by
  have hallows : s.Allows l := by
    cases l with
    | perform => exact Or.inl hidle
    | finish => exact Or.inl hidle
    | touchNode => exact hl.elim
    | editNode => exact hl.elim
    | unloadWorld => exact hl.elim
    | worldDoNodeLoadCommands => exact hl.elim
    | _ => exact hidle
  unfold loopStep
  rw [if_neg fun h => hlisted h.2.2]
  simp only [step, hm, if_pos hallows, hstep, Option.map_some, control_of_not_failed hfailed]

/-- The calls of the world leave the rest of the simulation as it is. -/
theorem galaxy_exec (s₀ : Simulation) {ls : List (Spatial3D.Label GalaxyNode)} :
    ∀ {s : Simulation} (b : Bool) {m m' : State GalaxyNode}, s.control = .idle →
      s.spatialWorlds ≠ [] → s.worlds 1 = some (.galaxy m) → (SpatialWorld.galaxy m).Drains →
      (∀ l ∈ ls, l.Unloads) → (worldMachine galaxyType emptyDatabase).exec m ls = some m' →
      ∃ b', (loopMachine s₀).exec (s, b) (ls.map (.galaxyWorld 1)) =
        some ({ s with worlds := Function.update s.worlds 1 (some (.galaxy m')) }, b') := by
  induction ls with
  | nil =>
    intro s b m m' _ _ hm _ _ hexec
    cases Option.some.inj hexec
    refine ⟨b, ?_⟩
    rw [← hm, Function.update_eq_self]
    rfl
  | cons l ls ih =>
    intro s b m m' hidle hlisted hm hdrains hunloads hexec
    obtain ⟨m₁, hstep, hrest⟩ := Option.bind_eq_some_iff.mp hexec
    have hl := hunloads l List.mem_cons_self
    have hdrains' : (SpatialWorld.galaxy m₁).Drains :=
      (SpatialWorld.Moves.inGalaxy hl hstep).drains hdrains
    have hfirst := loopStep_galaxy b hidle hlisted hm hl hstep hdrains'.2
    have hm₁ : Function.update s.worlds 1 (some (.galaxy m₁)) 1 = some (.galaxy m₁) :=
      Function.update_self ..
    obtain ⟨b', hexec'⟩ := ih
      (s := { s with worlds := Function.update s.worlds 1 (some (.galaxy m₁)) }) false
      hidle hlisted hm₁ hdrains'
      (fun l' hl' => hunloads l' (List.mem_cons_of_mem _ hl')) hrest
    rw [Function.update_idem] at hexec'
    exact ⟨b', Option.bind_eq_some_iff.mpr ⟨_, hfirst, hexec'⟩⟩

theorem emptyCalls_galaxy :
    (worldMachine galaxyType emptyDatabase).exec emptyGalaxy emptyCalls = some emptyGalaxy := rfl

theorem emptyCalls_unload {D : Type} : ∀ l ∈ emptyCalls (D := D), l.Unloads := by
  intro l hl
  rcases List.mem_append.mp hl with hl | hl
  · rcases List.mem_cons.mp hl with rfl | hl
    · trivial
    · obtain ⟨-, rfl⟩ := List.mem_replicate.mp hl
      trivial
  · obtain ⟨scale, -, rfl⟩ := List.mem_map.mp hl
    trivial

theorem Stuck.update {s₀ : Simulation} {x : Simulation × Bool} (h : Stuck x) :
    ∃ x', (loopMachine s₀).exec x stuckUpdate = some x' ∧ Stuck x' := by
  obtain ⟨s, b⟩ := x
  obtain ⟨hcondition, hidle, hlisted, hlive, hworld, hcontexts⟩ := h
  dsimp only at hcondition hidle hlisted hlive hworld hcontexts
  have hne : s.spatialWorlds ≠ [] := by simp [hlisted]
  obtain ⟨b', hcalls⟩ := galaxy_exec s₀ b hidle hne hworld emptyGalaxy_drains
    emptyCalls_unload emptyCalls_galaxy
  rw [← hworld, Function.update_eq_self] at hcalls
  have hidles : s.worldsIdle = true := by
    simp only [Simulation.worldsIdle, hlisted, List.all_cons, List.all_nil, hworld]
    rfl
  -- The world is not unloading, so the update keeps it.
  have hlisted' : (spatialUpdate s).spatialWorlds = [1] := by
    simp only [spatialUpdate, hlisted, List.filter_cons, List.filter_nil, hworld]
    rfl
  have hworld' : (spatialUpdate s).worlds 1 = some (.galaxy emptyGalaxy) := by
    simp only [spatialUpdate, hworld]
    rfl
  have hidles' : (spatialUpdate s).worldsIdle = true := by
    simp only [Simulation.worldsIdle, hlisted', List.all_cons, List.all_nil, hworld']
    rfl
  have hfirst : loopStep (s, b') .spatialUpdate = some (spatialUpdate s, false) := by
    unfold loopStep
    rw [if_neg fun h => hne h.2.2]
    simp only [step, if_pos (And.intro hidle hidles), Option.map_some]
  have hsecond : loopStep (spatialUpdate s, false) .dispatch =
      some ({ spatialUpdate s with control := .dispatching }, false) := by
    have hc : (spatialUpdate s).control = .idle := hidle
    simp only [loopStep, Bool.false_eq_true, false_and, if_false, step,
      if_pos (And.intro hc hidles'), Option.map_some]
  have hthird : loopStep ({ spatialUpdate s with control := .dispatching }, false) (.next none) =
      some ({ cleanup { spatialUpdate s with control := .dispatching } with control := .idle },
        true) := by
    have hpop : popCommand (spatialUpdate s).threadContexts = none :=
      (congrArg popCommand hcontexts).trans rfl
    simp only [loopStep, Bool.false_eq_true, false_and, if_false, step, if_true, hpop,
      Option.map_some, decide_true]
  have hexec : (loopMachine s₀).exec (s, b) stuckUpdate = some
      ({ cleanup { spatialUpdate s with control := .dispatching } with control := .idle }, true) :=
    Machine.exec_append hcalls (Option.bind_eq_some_iff.mpr ⟨_, hfirst,
      Option.bind_eq_some_iff.mpr ⟨_, hsecond, Option.bind_eq_some_iff.mpr ⟨_, hthird, rfl⟩⟩⟩)
  exact ⟨_, hexec, rfl, rfl, hlisted', loop_live hlive hexec, hworld', hcontexts⟩

theorem Stuck.loops (s₀ : Simulation) {x : Simulation × Bool} (h : Stuck x) :
    ∃ r : (loopMachine s₀).Endless, r.state 0 = x ∧ Updates r := by
  have hne : stuckUpdate ≠ [] := List.append_ne_nil_of_right_ne_nil _ (List.cons_ne_nil _ _)
  obtain ⟨r, h0, hstuck, hlabels⟩ :=
    Machine.Endless.exists_cycle (M := loopMachine s₀) hne (fun x hx => Stuck.update hx) h
  have hcall : ∀ l ∈ emptyCalls, r.Recurs fun _ l' => l' = .galaxyWorld 1 l := fun l hl =>
    hlabels _ (List.mem_append_left _ (List.mem_map_of_mem hl))
  refine ⟨r, h0, fun a => ?_, fun a scale => ?_, hlabels _ ?_, hlabels _ ?_, fun a τ => ?_⟩
  · by_cases ha : a = 1
    · subst ha
      refine (hcall .worldDoNodeUnloadCommands ?_).mono ?_
      · exact List.mem_append_left _ List.mem_cons_self
      · rintro x l rfl
        exact Or.inr ⟨rfl, rfl⟩
    · exact hstuck.mono fun x l hx => Or.inl (hx.elsewhere ha)
  · by_cases ha : a = 1 ∧ scale < 16
    · obtain ⟨rfl, hscale⟩ := ha
      refine (hcall (.scaleUnloadUnutilizedNodes scale 0 []) ?_).mono ?_
      · exact List.mem_append_right _ (List.mem_map_of_mem (List.mem_range.mpr hscale))
      · rintro x l rfl
        exact Or.inr ⟨rfl, 0, [], rfl⟩
    · refine hstuck.mono fun x l hx => Or.inl fun world hworld => ?_
      by_cases hone : a = 1
      · subst hone
        cases hx.world.symm.trans hworld
        exact Nat.le_of_not_lt fun hlt => ha ⟨rfl, hlt⟩
      · cases (hx.elsewhere hone).symm.trans hworld
  · exact List.mem_append_right _ (by simp)
  · exact List.mem_append_right _ (by simp)
  · refine hstuck.mono fun x l hx world hworld => ?_
    by_cases hone : a = 1
    · subst hone
      cases hx.world.symm.trans hworld
      exact fun io hio => by cases hio
    · cases (hx.elsewhere hone).symm.trans hworld

/-- A command that waits at the call is dispatched by the loop, which then goes on for ever. -/
theorem waitingGalaxy_loops :
    ∃ s s', (simulationMachine 1).Reachable s ∧ step s (.simulationUnload 0) = some s' ∧
      waiting s.threadContexts = [(.beginLoad, some 1)] ∧ LoopsForever s' ∧ ¬ShutdownEnds s' := by
  obtain ⟨s, s', x, hs, hcall, hwaiting, hexec, hcondition, hidle, hlisted, hworld, hcontexts⟩ :
      ∃ s s' x, (simulationMachine 1).exec (initial 1) waitingGalaxyRun = some s ∧
        step s (.simulationUnload 0) = some s' ∧
        waiting s.threadContexts = [(.beginLoad, some 1)] ∧
        (loopMachine s').exec (s', true) firstUpdates = some x ∧ x.2 = true ∧
        x.1.control = .idle ∧ x.1.spatialWorlds = [1] ∧
        x.1.worlds 1 = some (.galaxy emptyGalaxy) ∧ x.1.threadContexts = [{}] :=
    ⟨_, _, _, rfl, rfl, rfl, rfl, rfl, rfl, rfl, rfl, rfl⟩
  have hreachable : (simulationMachine 1).Reachable s := Machine.reachable_of_exec rfl hs
  have hlive : WorldsLive x.1.listedWorlds :=
    loop_live ((worldsLive_of_reachable hreachable).effects (step_worldsEffects hcall)) hexec
  obtain ⟨r, rfl, hr⟩ :=
    Stuck.loops s' ⟨hcondition, hidle, hlisted, hlive, hworld, hcontexts⟩
  obtain ⟨r', h0, hrecurs⟩ := r.exists_append hexec
  have hloops : LoopsForever s' :=
    ⟨r', h0, fun a => hrecurs _ (hr.unloadCommands a), fun a scale => hrecurs _ (hr.scans a scale),
      hrecurs _ hr.spatialUpdate, hrecurs _ hr.dispatch, fun a τ => hrecurs _ (hr.tasks a τ)⟩
  exact ⟨s, s', hreachable, hcall, hwaiting, hloops, fun h => h.1 hloops⟩

end CosmicArchitect.UniverseSimulation
