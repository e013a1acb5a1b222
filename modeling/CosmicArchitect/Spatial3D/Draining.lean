import CosmicArchitect.Spatial3D.Cells
import CosmicArchitect.Spatial3D.UnloadingWorld

/-!
# Unloading all nodes of a world

While a simulation unloads, a world is not touched and loads nothing: only
`ScaleUnloadUnutilizedNodes`, `WorldDoNodeUnloadCommands` and background work go on. Every
coordinate then only moves towards being vacant, and one call of `WorldDoNodeUnloadCommands`
visits every node that waits to be unloaded.
-/

namespace CosmicArchitect.Spatial3D
open Serialize Relation

variable {D : Type} {t : TypeData D} {G : Guard} {m m' : State D} {w : World D}

/-- The steps of a world while its simulation unloads. -/
def Label.Unloads : Label D → Prop
  | .scaleUnloadUnutilizedNodes .. | .worldDoNodeUnloadCommands | .next .. | .perform ..
  | .finish _ => True
  | _ => False

/-- What happens to a coordinate of such a world. -/
inductive CellStep : Option (Cell D) → Option (Cell D) → Prop
  | mark {k : Cell D} : k.state = .loaded →
      CellStep (some k) (some { k with state := .unloading })
  | startWrite {k : Cell D} (τ : Nat) : k.state = .unloading → k.taskState = .idle →
      k.task = none →
      CellStep (some k) (some { k with taskState := .writeInProgress, task := some τ })
  | destroy {k : Cell D} : k.state = .unloading → k.taskState ≠ .idle → CellStep (some k) none

abbrev CellSteps : Option (Cell D) → Option (Cell D) → Prop := ReflTransGen CellStep

/-- The next poll of the unload command of the coordinate will do something. -/
def World.Ready (w : World D) (c : NodeCoord) : Prop :=
  ∃ k, w.cell c = some k ∧ k.state = .unloading ∧
    (k.taskState = .idle ∧ k.task = none ∨ k.taskState = .writeDone ∨
      k.taskState = .writeInProgress ∧
        ∃ τ io, k.task = some τ ∧ w.tasks τ = some io ∧ io.finished = true)

/-- How far a coordinate is from being vacant. -/
def rank : Option (Cell D) → Nat
  | none => 0
  | some k =>
    match k.state, k.taskState with
    | .unloading, .idle => 2
    | .unloading, _ => 1
    | _, _ => 3

/-! ### What one step does -/

/- Everything a step of a world that unloads can do. `visit` is one iteration of
   `ScaleDoNodeCommands`: the node at `pos` waits, starts its write, or is destroyed. -/
inductive UnloadStep (t : TypeData D) (m m' : State D) : Label D → Prop
  | scale {s : Nat} {now : Int} {order : List Vector3i} (hidle : m.control = .idle)
      (hs : s < t.maxScale) (horder : order.Perm (m.world.scales s).nodes.keys)
      (h : m' = { m with world := scaleUnloadUnutilizedNodes t s now order m.world }) :
      UnloadStep t m m' (.scaleUnloadUnutilizedNodes s now order)
  | enter (hidle : m.control = .idle) (h : m' = { m with control := .unloading 0 0 }) :
      UnloadStep t m m' .worldDoNodeUnloadCommands
  | nextScale {fresh seed s it : Nat} (hcontrol : m.control = .unloading s it)
      (hit : (m.world.scales s).unloadingNodes[it]? = none)
      (h : m' = { m with control := .unloading (s + 1) 0 }) : UnloadStep t m m' (.next fresh seed)
  | leave {fresh seed s it : Nat} (hcontrol : m.control = .unloading s it) (hs : t.maxScale ≤ s)
      (h : m' = { m with control := .idle }) : UnloadStep t m m' (.next fresh seed)
  | wait {fresh seed s it : Nat} {pos : Vector3i} (hcontrol : m.control = .unloading s it)
      (hit : (m.world.scales s).unloadingNodes[it]? = some pos)
      (hbusy : ¬ m.world.Ready ⟨pos, s⟩)
      (h : m' = { m with control := .unloading s (it + 1) }) : UnloadStep t m m' (.next fresh seed)
  | start {fresh seed s it a : Nat} {pos : Vector3i} {n : Node D}
      (hcontrol : m.control = .unloading s it)
      (hit : (m.world.scales s).unloadingNodes[it]? = some pos) (hat : m.world.At s pos a n)
      (hstate : n.state = .unloading) (hidle : n.taskState = .idle) (htask : n.task = none)
      (hfresh : m.world.tasks fresh = none) (hworld : m'.world = m.world.startWrite t a n fresh)
      (hcontrol' : m'.control = .unloading s (it + 1)) : UnloadStep t m m' (.next fresh seed)
  | destroy {fresh seed s it a : Nat} {pos : Vector3i} {n : Node D} {w : World D}
      (hcontrol : m.control = .unloading s it)
      (hit : (m.world.scales s).unloadingNodes[it]? = some pos) (hat : m.world.At s pos a n)
      (hstate : n.state = .unloading)
      (hw : n.taskState = .writeDone ∧ w = m.world ∨ n.taskState = .writeInProgress ∧
        ∃ τ, n.task = some τ ∧ w = m.world.finishWrite a τ)
      (hworld : m'.world = (finishUnload t s w a n.position).eraseUnloading s it)
      (hcontrol' : m'.control = .unloading s it) : UnloadStep t m m' (.next fresh seed)
  | background {l : Label D} {i : Nat} {e : PoolTask} {io io' : IOTask}
      (he : m.world.pool[i]? = some e) (hio : m.world.tasks e.task = some io)
      (hheap : m'.world.heap = m.world.heap) (hscales : m'.world.scales = m.world.scales)
      (htasks : m'.world.tasks = Function.update m.world.tasks e.task (some io'))
      (hunloading : m'.world.unloading = m.world.unloading)
      (hcontrol : m'.control = m.control) : UnloadStep t m m' l

theorem nextUnload_cases (hs : Sound t G m.world) (hl : t.localNode = true) {fresh s it : Nat}
    (seed : Nat) (hfresh : m.world.tasks fresh = none) (hc : m.control = .unloading s it) :
    UnloadStep t m (nextUnload t fresh m s it) (.next fresh seed) := by
  unfold nextUnload
  split
  case isFalse hlt => exact .leave hc (by omega) rfl
  case isTrue hlt =>
  split
  case h_1 hit => exact .nextScale hc hit rfl
  case h_2 pos hit =>
  obtain ⟨a, n, hat, hstate⟩ := hs.unloading hit
  have hcell := cell_of_at hat
  simp only [hat.find, hat.heap, hstate, if_true, unloadNode, hl]
  unfold progressNodeWriteTask
  have hshape := hs.holds.shape (hold_of_heap hat.heap)
  cases hts : n.taskState with
  | idle =>
    cases hτ : n.task with
    | some τ =>
      refine .wait hc hit ?_ rfl
      rintro ⟨k, hk, -, hready⟩
      rw [hcell] at hk
      cases hk
      simp [Node.cell, hts, hτ] at hready
    | none => exact .start hc hit hat hstate hts hτ hfresh rfl rfl
  | writeInProgress =>
    obtain ⟨τ, io, hτ, hio⟩ := hs.task hat.heap (Or.inr hts)
    simp only [hτ, Option.bind_some, hio, Option.map_some]
    by_cases hfin : io.finished = true
    · simp only [hfin, if_true]
      exact .destroy hc hit hat hstate (Or.inr ⟨hts, τ, hτ, rfl⟩) rfl rfl
    · simp only [hfin, Bool.false_eq_true, if_false]
      refine .wait hc hit ?_ rfl
      rintro ⟨k, hk, -, hready⟩
      rw [hcell] at hk
      cases hk
      simp [Node.cell, hts, hτ, hio, hfin] at hready
  | writeDone => exact .destroy hc hit hat hstate (Or.inl ⟨hts, rfl⟩) rfl rfl
  | readInProgress => simp [Shape, Node.hold, hstate, hts] at hshape
  | readDone => simp [Shape, Node.hold, hstate, hts] at hshape

theorem unload_cases (hs : Sound t G m.world) (hl : t.localNode = true)
    (hload : ∀ now s it, m.control ≠ .loading now s it) {l : Label D} (hu : l.Unloads)
    (h : step t m l = some m') : UnloadStep t m m' l := by
  cases l with
  | touchNode s pos now fresh => exact hu.elim
  | editNode s pos body => exact hu.elim
  | unloadWorld => exact hu.elim
  | worldDoNodeLoadCommands now => exact hu.elim
  | scaleUnloadUnutilizedNodes s now order =>
    simp only [step] at h
    split at h
    · next hc => cases h; exact .scale hc.1 hc.2.1 hc.2.2 rfl
    · cases h
  | worldDoNodeUnloadCommands =>
    simp only [step] at h
    split at h
    · next hc => cases h; exact .enter hc rfl
    · cases h
  | next fresh seed =>
    simp only [step] at h
    split at h
    · next hfresh =>
      split at h
      · next now s it hc => exact absurd hc (hload now s it)
      · next s it hc => cases h; exact nextUnload_cases hs hl seed (by simpa using hfresh) hc
      · cases h
    · cases h
  | perform i outcome =>
    simp only [step] at h
    split at h
    · next e he =>
      obtain ⟨io, hio⟩ := hs.pool he
      split at h
      · cases h
        unfold perform
        simp only [hio]
        exact .background he hio rfl rfl rfl rfl rfl
      · cases h
    · cases h
  | finish i =>
    simp only [step] at h
    split at h
    · next e he =>
      obtain ⟨io, hio⟩ := hs.pool he
      split at h
      · cases h
        unfold finish
        simp only [hio]
        exact .background he hio rfl rfl rfl rfl rfl
      · cases h
    · cases h

/-! ### Coordinates only move towards being vacant -/

theorem cellSteps_update {f : NodeCoord → Option (Cell D)} {d : NodeCoord} {x : Option (Cell D)}
    (h : CellSteps (f d) x) (c : NodeCoord) : CellSteps (f c) (Function.update f d x c) := by
  by_cases hc : c = d
  · subst hc
    rw [Function.update_self]
    exact h
  · rw [Function.update_of_ne hc]

theorem unloadUnutilized_sound (hs : Sound t G w) (s : Nat) (now : Int) (pos : Vector3i) :
    Sound t G (unloadUnutilized t s now w pos) :=
  effects_sound hs (unloadUnutilized_effects s now w pos [])

theorem unloadUnutilized_cells (hs : Sound t G w) (s : Nat) (now : Int) (pos : Vector3i)
    (c : NodeCoord) : CellSteps (w.cell c) ((unloadUnutilized t s now w pos).cell c) := by
  unfold unloadUnutilized
  split
  case h_2 => exact .refl
  case h_1 a hfind =>
  split
  case h_2 => exact .refl
  case h_1 n hn =>
  split
  case isFalse => exact .refl
  case isTrue =>
  split
  case h_2 => exact .refl
  case h_1 hstate =>
  have hat : w.At s pos a n := ⟨hfind, hn⟩
  have hcell := (cell_mark (s := s) (p := n.position) w a).trans (cell_modify hs.placed hat _)
  refine (congrFun hcell c) ▸ cellSteps_update ?_ c
  rw [cell_of_at hat]
  exact .single (.mark (k := n.cell a) hstate)

theorem tasks_scaleUnload (s : Nat) (now : Int) (order : List Vector3i) : ∀ w : World D,
    (scaleUnloadUnutilizedNodes t s now order w).tasks = w.tasks := by
  induction order with
  | nil => exact fun w => rfl
  | cons pos order ih =>
    intro w
    refine (ih _).trans ?_
    unfold unloadUnutilized
    repeat' split
    all_goals rfl

theorem scaleUnload_cells (s : Nat) (now : Int) (c : NodeCoord) (order : List Vector3i) :
    ∀ {w : World D}, Sound t G w →
      CellSteps (w.cell c) ((scaleUnloadUnutilizedNodes t s now order w).cell c) := by
  induction order with
  | nil => intro w hs; exact .refl
  | cons pos order ih =>
    intro w hs
    exact (unloadUnutilized_cells hs s now pos c).trans (ih (unloadUnutilized_sound hs s now pos))

theorem destroy_cells (hs : Sound t G w) {s : Nat} (it : Nat) {a : Nat} {pos : Vector3i}
    {n : Node D} {w' : World D} (hat : w.At s pos a n)
    (hw : n.taskState = .writeDone ∧ w' = w ∨ n.taskState = .writeInProgress ∧
      ∃ τ, n.task = some τ ∧ w' = w.finishWrite a τ) :
    ((finishUnload t s w' a n.position).eraseUnloading s it).cell =
      Function.update w.cell ⟨pos, s⟩ none := by
  rcases hw with ⟨-, rfl⟩ | ⟨-, τ, -, rfl⟩
  · exact cell_destroy it hs.placed hat
  · have hplaced : Placed t (w.finishWrite a τ) :=
      placed_keep hs.placed rfl (place_finishWrite hat.heap)
    have hwritten : (w.finishWrite a τ).cell = Function.update w.cell ⟨pos, s⟩ _ :=
      cell_modify (w := w.freeTask τ) hs.placed ⟨hat.find, hat.heap⟩ _
    have hcell := cell_destroy it hplaced (at_finishWrite hat)
    rw [hwritten, Function.update_idem] at hcell
    exact hcell

theorem scales_written {a : Nat} {n : Node D} {w' : World D}
    (hw : n.taskState = .writeDone ∧ w' = w ∨ n.taskState = .writeInProgress ∧
      ∃ τ, n.task = some τ ∧ w' = w.finishWrite a τ) : w'.scales = w.scales := by
  rcases hw with ⟨-, rfl⟩ | ⟨-, τ, -, rfl⟩ <;> rfl

theorem destroy_tasks (hs : Sound t G w) {s it a : Nat} {pos : Vector3i} {n : Node D}
    {w' : World D} (hat : w.At s pos a n) (hstate : n.state = .unloading)
    (hw : n.taskState = .writeDone ∧ w' = w ∨ n.taskState = .writeInProgress ∧
      ∃ τ, n.task = some τ ∧ w' = w.finishWrite a τ) (τ : Nat) (hne : n.task ≠ some τ) :
    ((finishUnload t s w' a n.position).eraseUnloading s it).tasks τ = w.tasks τ := by
  rcases hw with ⟨hts, rfl⟩ | ⟨-, τ', hτ', rfl⟩
  · have hnone : n.task = none := by
      have hshape := hs.holds.shape (hold_of_heap hat.heap)
      simpa [Shape, Node.hold, hstate, hts] using hshape
    exact congrFun (finishUnload_tasks t s n.position hat.heap hnone).2.1 τ
  · have hat' := at_finishWrite (τ := τ') hat
    refine (congrFun (finishUnload_tasks t s n.position hat'.heap rfl).2.1 τ).trans ?_
    have hne' : τ ≠ τ' := by
      rintro rfl
      exact hne hτ'
    exact Function.update_of_ne hne' _ _

theorem destroy_listed (w : World D) (s it a : Nat) (pos : Vector3i) (s' : Nat) :
    (((finishUnload t s w a pos).eraseUnloading s it).scales s').unloadingNodes =
      if s' = s then (w.scales s').unloadingNodes.eraseIdx it
      else (w.scales s').unloadingNodes := by
  simp only [World.eraseUnloading, World.scales_setScale, scales_finishUnload]
  by_cases hs : s' = s
  · subst hs
    simp only [Function.update_self, if_true]
  · simp only [Function.update_of_ne hs, if_neg hs]

theorem UnloadStep.cells {l : Label D} (hs : Sound t G m.world) (h : UnloadStep t m m' l)
    (c : NodeCoord) : CellSteps (m.world.cell c) (m'.world.cell c) := by
  cases h with
  | scale _ _ _ h => subst h; exact scaleUnload_cells _ _ c _ hs
  | enter _ h => subst h; exact .refl
  | nextScale _ _ h => subst h; exact .refl
  | leave _ _ h => subst h; exact .refl
  | wait _ _ _ h => subst h; exact .refl
  | @start fresh _ s _ a pos n _ _ hat hstate hidle htask _ hworld _ =>
    have hcell : m'.world.cell = Function.update m.world.cell ⟨pos, s⟩ _ :=
      (congrArg World.cell hworld).trans (cell_modify (w := m.world.addNativeTask .write fresh
        { coord := ⟨n.position, n.scaleIndex⟩, data := t.serializeAll n.position n.toBody })
        hs.placed ⟨hat.find, hat.heap⟩ _)
    refine (congrFun hcell c) ▸ cellSteps_update ?_ c
    rw [cell_of_at hat]
    exact .single (.startWrite (k := n.cell a) fresh hstate hidle htask)
  | @destroy _ _ s it a pos n w _ _ hat hstate hw hworld _ =>
    have hcell := (congrArg World.cell hworld).trans (destroy_cells hs it hat hw)
    refine (congrFun hcell c) ▸ cellSteps_update ?_ c
    rw [cell_of_at hat]
    refine .single (.destroy (k := n.cell a) hstate ?_)
    rcases hw with ⟨hts, -⟩ | ⟨hts, -⟩
    · exact fun hidle => by cases hts.symm.trans hidle
    · exact fun hidle => by cases hts.symm.trans hidle
  | background _ _ hheap hscales _ _ _ =>
    have hcell : m'.world.cell = m.world.cell := by
      funext d
      simp only [World.cell, World.find, hheap, hscales]
    rw [hcell]

theorem CellStep.rank_le {k k' : Option (Cell D)} (h : CellStep k k') : rank k' ≤ rank k := by
  cases h with
  | mark hstate => cases hts : Cell.taskState _ <;> simp [rank, hstate, hts]
  | startWrite _ hstate hidle _ => simp [rank, hstate, hidle]
  | destroy _ _ => simp [rank]

theorem CellSteps.rank_le {k k' : Option (Cell D)} (h : CellSteps k k') : rank k' ≤ rank k := by
  induction h with
  | refl => exact Nat.le_refl _
  | tail _ hlast ih => exact Nat.le_trans hlast.rank_le ih

/-- A node whose write was handed to the pool keeps its task until it is destroyed. -/
theorem CellSteps.writing {k : Cell D} {x : Option (Cell D)} (h : CellSteps (some k) x)
    (hstate : k.state = .unloading) (hts : k.taskState ≠ .idle) : x = some k ∨ x = none := by
  induction h with
  | refl => exact Or.inl rfl
  | tail _ hlast ih =>
    rcases ih with rfl | rfl
    · cases hlast with
      | mark hloaded => cases hstate.symm.trans hloaded
      | startWrite _ _ hidle _ => exact absurd hidle hts
      | destroy _ _ => exact Or.inr rfl
    · cases hlast

theorem CellSteps.vacant {x : Option (Cell D)} (h : CellSteps (none : Option (Cell D)) x) :
    x = none := by
  induction h with
  | refl => rfl
  | tail _ hlast ih => subst ih; cases hlast

/-! ### One call visits every waiting node -/

/-- The cursor of the running call has not yet passed the coordinate. -/
def Ahead (m : State D) (c : NodeCoord) : Prop :=
  ∃ s it, m.control = .unloading s it ∧ (s < c.scaleIndex ∨
    s = c.scaleIndex ∧ c.position ∈ (m.world.scales s).unloadingNodes.drop it)

theorem mem_drop_succ {α : Type} {l : List α} {it : Nat} {x y : α} (hx : x ∈ l.drop it)
    (hy : l[it]? = some y) (hne : x ≠ y) : x ∈ l.drop (it + 1) := by
  obtain ⟨hlt, rfl⟩ := List.getElem?_eq_some_iff.mp hy
  rw [List.drop_eq_getElem_cons hlt] at hx
  exact (List.mem_cons.mp hx).resolve_left hne

theorem drop_eraseIdx {α : Type} (l : List α) (it : Nat) :
    (l.eraseIdx it).drop it = l.drop (it + 1) := by
  induction l generalizing it with
  | nil => simp
  | cons x l ih =>
    cases it with
    | zero => rfl
    | succ it => exact ih it

/-- A node that waits to be unloaded is in the command list of its scale. -/
theorem World.Ready.listed (hs : Sound t G w) {c : NodeCoord} (h : w.Ready c) :
    c.scaleIndex < t.maxScale ∧ c.position ∈ (w.scales c.scaleIndex).unloadingNodes := by
  obtain ⟨k, hk, hstate, -⟩ := h
  obtain ⟨n, hat, hn⟩ := at_of_cell hk
  have hplace : w.place k.addr = some (c.position, .unloading) := by
    rw [place_of_heap hat.heap, hs.placed.position hat, ← hstate, ← hn]
    rfl
  exact ⟨(hs.placed.live hat.find).1, (hs.placed.unloading _ _).mpr ⟨_, hat.find, hplace⟩⟩

theorem World.Ready.rank_pos {c : NodeCoord} (h : w.Ready c) : 0 < rank (w.cell c) := by
  obtain ⟨k, hk, hstate, -⟩ := h
  rw [hk]
  cases hts : k.taskState <;> simp [rank, hstate, hts]

theorem Sound.task_unique (hs : Sound t G w) {c : NodeCoord} {k : Cell D} {s a τ : Nat}
    {pos : Vector3i} {n : Node D} (hk : w.cell c = some k) (hat : w.At s pos a n)
    (hτ : k.task = some τ) (hτ' : n.task = some τ) : c = ⟨pos, s⟩ := by
  obtain ⟨n', hat', hn'⟩ := at_of_cell hk
  have htask : n'.task = some τ := (congrArg Cell.task hn').trans hτ
  have haddr : k.addr = a :=
    hs.holds.exclusive (hold_of_heap hat'.heap) (hold_of_heap hat.heap) htask hτ'
  by_contra hne
  exact hs.placed.addr_ne hat hne hat'.find haddr

/-- A finished task is not in the pool. -/
theorem Sound.pool_unfinished (hs : Sound t G w) {i : Nat} {e : PoolTask} {io : IOTask}
    (he : w.pool[i]? = some e) (hio : w.tasks e.task = some io) : io.finished = false := by
  obtain ⟨-, -, io', -, -, hio', hfin, -⟩ := hs.holds.owner (List.mem_of_getElem? he)
  cases hio.symm.trans hio'
  exact hfin

/-- A finished task keeps its result until its node is destroyed. -/
theorem UnloadStep.finished {l : Label D} (hs : Sound t G m.world) (h : UnloadStep t m m' l)
    {c : NodeCoord} {k : Cell D} {τ : Nat} {io : IOTask} (hk : m.world.cell c = some k)
    (hτ : k.task = some τ) (hio : m.world.tasks τ = some io) (hfin : io.finished = true) :
    m'.world.cell c = none ∨ m'.world.tasks τ = some io := by
  cases h with
  | scale _ _ _ h =>
    subst h
    exact Or.inr ((congrFun (tasks_scaleUnload _ _ _ _) τ).trans hio)
  | enter _ h => subst h; exact Or.inr hio
  | nextScale _ _ h => subst h; exact Or.inr hio
  | leave _ _ h => subst h; exact Or.inr hio
  | wait _ _ _ h => subst h; exact Or.inr hio
  | @start fresh _ _ _ _ _ _ _ _ _ _ _ _ hfresh hworld _ =>
    have hne : τ ≠ fresh := fun heq => by rw [heq, hfresh] at hio; cases hio
    rw [hworld]
    exact Or.inr ((Function.update_of_ne hne _ _).trans hio)
  | @destroy _ _ s it a pos n w _ _ hat hstate hw hworld _ =>
    have hcell := (congrArg World.cell hworld).trans (destroy_cells hs it hat hw)
    by_cases hne : c = ⟨pos, s⟩
    · subst hne
      exact Or.inl (by rw [hcell, Function.update_self])
    · rw [hworld]
      refine Or.inr ((destroy_tasks hs hat hstate hw τ ?_).trans hio)
      exact fun hτ' => hne (hs.task_unique hk hat hτ hτ')
  | @background _ _ e _ _ he hio' _ _ htasks _ _ =>
    have hne : τ ≠ e.task := by
      rintro rfl
      cases hio'.symm.trans hio
      rw [hs.pool_unfinished he hio] at hfin
      cases hfin
    rw [htasks, Function.update_of_ne hne]
    exact Or.inr hio

/-- The cursor passes a ready node only by moving it on. -/
theorem UnloadStep.ahead {l : Label D} {c : NodeCoord} (hs : Sound t G m.world)
    (hready : m.world.Ready c) (hahead : Ahead m c) (h : UnloadStep t m m' l) :
    rank (m'.world.cell c) < rank (m.world.cell c) ∨ Ahead m' c := by
  obtain ⟨s₀, it₀, hc₀, hpos⟩ := hahead
  obtain ⟨hlt, hlisted⟩ := hready.listed hs
  -- a visit of another coordinate leaves the cursor at or before `c`
  have hmove : ∀ {s it pos}, m.control = .unloading s it →
      (m.world.scales s).unloadingNodes[it]? = some pos → c ≠ ⟨pos, s⟩ →
      s < c.scaleIndex ∨ s = c.scaleIndex ∧
        c.position ∈ (m.world.scales s).unloadingNodes.drop (it + 1) := by
    intro s it pos hc hit hne
    cases hc₀.symm.trans hc
    rcases hpos with hs | ⟨rfl, hmem⟩
    · exact Or.inl hs
    · refine Or.inr ⟨rfl, mem_drop_succ hmem hit fun heq => hne ?_⟩
      cases c
      cases heq
      rfl
  cases h with
  | scale hidle _ _ _ => cases hc₀.symm.trans hidle
  | enter hidle _ => cases hc₀.symm.trans hidle
  | @nextScale _ _ s it hc hit h =>
    subst h
    cases hc₀.symm.trans hc
    refine Or.inr ⟨s₀ + 1, 0, rfl, ?_⟩
    rcases hpos with hs | ⟨rfl, hmem⟩
    · rcases Nat.lt_or_ge (s₀ + 1) c.scaleIndex with hs' | hs'
      · exact Or.inl hs'
      · have heq : s₀ + 1 = c.scaleIndex := by omega
        exact Or.inr ⟨heq, heq ▸ hlisted⟩
    · rw [List.drop_eq_nil_of_le (List.getElem?_eq_none_iff.mp hit)] at hmem
      cases hmem
  | leave hc hs _ =>
    cases hc₀.symm.trans hc
    rcases hpos with hs' | ⟨rfl, -⟩ <;> omega
  | @wait _ _ s it pos hc hit hbusy h =>
    subst h
    have hne : c ≠ ⟨pos, s⟩ := fun heq => hbusy (heq ▸ hready)
    exact Or.inr ⟨s, it + 1, rfl, hmove hc hit hne⟩
  | @start fresh _ s it a pos n hc hit hat hstate hidle _ _ hworld hc' =>
    by_cases hne : c = ⟨pos, s⟩
    · subst hne
      have hcell : m'.world.cell = Function.update m.world.cell ⟨pos, s⟩ _ :=
        (congrArg World.cell hworld).trans (cell_modify (w := m.world.addNativeTask .write fresh
          { coord := ⟨n.position, n.scaleIndex⟩, data := t.serializeAll n.position n.toBody })
          hs.placed ⟨hat.find, hat.heap⟩ _)
      left
      rw [hcell, Function.update_self, cell_of_at hat]
      simp [rank, Node.cell, hstate, hidle]
    · refine Or.inr ⟨s, it + 1, hc', ?_⟩
      rw [hworld]
      exact hmove hc hit hne
  | @destroy _ _ s it a pos n w hc hit hat _ hw hworld hc' =>
    by_cases hne : c = ⟨pos, s⟩
    · subst hne
      have hcell := (congrArg World.cell hworld).trans (destroy_cells hs it hat hw)
      left
      rw [hcell, Function.update_self]
      exact hready.rank_pos
    · refine Or.inr ⟨s, it, hc', ?_⟩
      rw [hworld, destroy_listed]
      rcases hmove hc hit hne with hs' | ⟨rfl, hmem⟩
      · exact Or.inl hs'
      · rw [if_pos rfl, drop_eraseIdx, scales_written hw]
        exact Or.inr ⟨rfl, hmem⟩
  | background _ _ _ hscales _ _ hcontrol =>
    exact Or.inr ⟨s₀, it₀, hcontrol.trans hc₀, by rwa [hscales]⟩

/-- The node is not stuck: it is not Loading and does not own the task of its read. -/
def Cell.Drains (k : Cell D) : Prop :=
  k.state ≠ .loading ∧ (k.taskState = .idle → k.task = none)

theorem CellSteps.drains {x y : Option (Cell D)} (h : CellSteps x y)
    (hx : ∀ k ∈ x, k.Drains) : ∀ k ∈ y, k.Drains := by
  induction h with
  | refl => exact hx
  | tail _ hlast ih =>
    rintro k hk
    cases hlast with
    | mark _ => cases hk; exact ⟨by simp, (ih _ rfl).2⟩
    | startWrite _ hstate _ _ => cases hk; exact ⟨by simp [hstate], by simp⟩
    | destroy _ _ => cases hk

/-! ### Runs -/

/-- Nothing in the world is stuck, and no load callbacks are running. -/
structure State.Drains (t : TypeData D) (G : Guard) (m : State D) : Prop where
  sound : Sound t G m.world
  control : ∀ now s it, m.control ≠ .loading now s it
  cells : ∀ c, ∀ k ∈ m.world.cell c, k.Drains

theorem UnloadStep.control {l : Label D} (hload : ∀ now s it, m.control ≠ .loading now s it)
    (h : UnloadStep t m m' l) (now : Int) (s it : Nat) : m'.control ≠ .loading now s it := by
  cases h with
  | scale _ _ _ h => subst h; exact hload now s it
  | enter _ h => subst h; simp
  | nextScale _ _ h => subst h; simp
  | leave _ _ h => subst h; simp
  | wait _ _ _ h => subst h; simp
  | start _ _ _ _ _ _ _ _ hc => rw [hc]; simp
  | destroy _ _ _ _ _ _ hc => rw [hc]; simp
  | background _ _ _ _ _ _ hc => rw [hc]; exact hload now s it

theorem State.Drains.step (h : m.Drains t Guard.any) (hl : t.localNode = true) {l : Label D}
    (hu : l.Unloads) (hstep : Spatial3D.step t m l = some m') : m'.Drains t Guard.any := by
  have hmove := unload_cases h.sound hl h.control hu hstep
  exact ⟨step_sound h.sound hstep, hmove.control h.control,
    fun c => (hmove.cells h.sound c).drains (h.cells c)⟩

end CosmicArchitect.Spatial3D
