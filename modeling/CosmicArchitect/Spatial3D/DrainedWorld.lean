import CosmicArchitect.Library.Endless
import CosmicArchitect.Spatial3D.Draining

/-!
# A world that unloads gets empty

As long as the loop of `SimulationUnload` goes on, every world is scanned and runs its unload
commands again and again, and its background tasks finish. If no node of the world is stuck,
every coordinate falls in rank until it is vacant.
-/

namespace CosmicArchitect.Spatial3D
open Library Serialize

variable {D : Type} {t : TypeData D} {db : NodeCoord → Option Bytes}

/-- What the loop makes a world do; at the other steps the world stands still. -/
structure UnloadLoop (r : (worldMachine t db).stutter.Endless) : Prop where
  labels : ∀ n, ∀ l ∈ r.label n, l.Unloads
  unloadCommands : r.Recurs fun _ l => l = some .worldDoNodeUnloadCommands
  scans : ∀ s < t.maxScale, r.Recurs fun _ l =>
    ∃ now order, l = some (.scaleUnloadUnutilizedNodes s now order)
  tasks : ∀ τ, r.Recurs fun m _ => ∀ io ∈ m.world.tasks τ, io.finished = true

/-! ### Where a coordinate stands -/

theorem unloads_unloading {m m' : State D} {l : Label D} (hs : Sound t Guard.any m.world)
    (hload : ∀ now s it, m.control ≠ .loading now s it) (hu : l.Unloads)
    (h : step t m l = some m') : m'.world.unloading = m.world.unloading := by
  cases l with
  | scaleUnloadUnutilizedNodes s now order =>
    simp only [step] at h
    split at h
    · cases h
      exact (scaleUnload_sweep s now 0 ⟨0, 0, 0⟩ order hs).2
    · cases h
  | worldDoNodeUnloadCommands =>
    simp only [step] at h
    split at h
    · cases h; rfl
    · cases h
  | next fresh seed =>
    have hvisited : Visited 0 m.world m'.world := by
      refine next_visited hs (fun T hT => ?_) h
      cases hc : m.control with
      | loading now s it => exact absurd hc (hload now s it)
      | _ => rw [hc] at hT; cases hT
    exact hvisited.unloading
  | perform i outcome => exact (perform_alike h).unloading
  | finish i => exact (finish_alike h).unloading
  | _ => exact hu.elim

theorem cell_shape {G : Guard} {w : World D} (hs : Sound t G w) {c : NodeCoord} {k : Cell D}
    (hk : w.cell c = some k) : Shape G.unfinishedRead k.hold := by
  obtain ⟨n, hat, hn⟩ := at_of_cell hk
  rw [← hn]
  exact hs.holds.shape (hold_of_heap hat.heap)

theorem stamp_of_cell {w : World D} {c : NodeCoord} {k : Cell D} (hk : w.cell c = some k) :
    ∃ T, w.stamp c.scaleIndex c.position = some (k.state, T) := by
  obtain ⟨n, hat, hn⟩ := at_of_cell hk
  exact ⟨n.lastUpdateTime, (stamp_of_at hat).trans (by rw [← hn]; rfl)⟩

theorem cell_of_stamp {w : World D} {c : NodeCoord}
    (h : (w.stamp c.scaleIndex c.position).isSome) : w.cell c ≠ none := by
  obtain ⟨x, hx⟩ := Option.isSome_iff_exists.mp h
  obtain ⟨a, n, hat, -⟩ := at_of_stamp hx
  have hcell : w.cell c = some (n.cell a) := cell_of_at hat
  rw [hcell]
  exact Option.some_ne_none _

theorem cell_task {G : Guard} {w : World D} (hs : Sound t G w) {c : NodeCoord} {k : Cell D}
    (hk : w.cell c = some k) (hts : k.taskState = .writeInProgress) :
    ∃ τ io, k.task = some τ ∧ w.tasks τ = some io := by
  obtain ⟨n, hat, hn⟩ := at_of_cell hk
  rw [← hn] at hts ⊢
  exact hs.task hat.heap (Or.inr hts)

/-- A coordinate that is not stuck is vacant, loaded, waits for a visit, or is being written. -/
theorem State.Drains.phase {G : Guard} {m : State D} (h : m.Drains t G) (c : NodeCoord) :
    m.world.cell c = none ∧ rank (m.world.cell c) = 0 ∨
    (∃ k, m.world.cell c = some k ∧ k.state = .loaded) ∧ rank (m.world.cell c) = 3 ∨
    m.world.Ready c ∧ rank (m.world.cell c) = 2 ∨
    (∃ k, m.world.cell c = some k ∧ k.state = .unloading ∧
      (k.taskState = .writeDone ∨ k.taskState = .writeInProgress)) ∧
        rank (m.world.cell c) = 1 := by
  cases hk : m.world.cell c with
  | none => exact Or.inl ⟨rfl, rfl⟩
  | some k =>
    obtain ⟨hloading, htask⟩ := h.cells c k hk
    have hshape := cell_shape h.sound hk
    cases hstate : k.state <;> cases hts : k.taskState <;>
      simp only [Shape, Cell.hold, hstate, hts] at hshape
    all_goals first | exact absurd hstate hloading | skip
    · exact Or.inr (Or.inl ⟨⟨k, rfl, hstate⟩, by simp only [rank, hstate]⟩)
    · exact Or.inr (Or.inr (Or.inl
        ⟨⟨k, hk, hstate, Or.inl ⟨hts, htask hts⟩⟩, by simp only [rank, hstate, hts]⟩))
    · exact Or.inr (Or.inr (Or.inr
        ⟨⟨k, rfl, hstate, Or.inr hts⟩, by simp only [rank, hstate, hts]⟩))
    · exact Or.inr (Or.inr (Or.inr
        ⟨⟨k, rfl, hstate, Or.inl hts⟩, by simp only [rank, hstate, hts]⟩))

namespace UnloadLoop
variable {r : (worldMachine t db).stutter.Endless} {c : NodeCoord}

theorem steps (h : UnloadLoop r) (n : Nat) : r.label n = none ∧ r.state (n + 1) = r.state n ∨
    ∃ l, r.label n = some l ∧ l.Unloads ∧ step t (r.state n) l = some (r.state (n + 1)) := by
  have hstep := r.steps n
  cases hl : r.label n with
  | none =>
    rw [hl] at hstep
    exact Or.inl ⟨rfl, (Option.some.inj hstep).symm⟩
  | some l =>
    rw [hl] at hstep
    exact Or.inr ⟨l, rfl, h.labels n l hl, hstep⟩

theorem step_at (n : Nat) {l : Label D} (hlabel : r.label n = some l) :
    step t (r.state n) l = some (r.state (n + 1)) := by
  have hstep := r.steps n
  rw [hlabel] at hstep
  exact hstep

theorem drains (h : UnloadLoop r) (hl : t.localNode = true)
    (h0 : (r.state 0).Drains t Guard.any) (n : Nat) : (r.state n).Drains t Guard.any := by
  induction n with
  | zero => exact h0
  | succ n ih =>
    rcases h.steps n with ⟨-, heq⟩ | ⟨l, -, hu, hstep⟩
    · rwa [heq]
    · exact ih.step hl hu hstep

variable (h : UnloadLoop r) (hl : t.localNode = true) (h0 : (r.state 0).Drains t Guard.any)
include h hl h0

theorem moves (n : Nat) : r.label n = none ∧ r.state (n + 1) = r.state n ∨
    ∃ l, r.label n = some l ∧ UnloadStep t (r.state n) (r.state (n + 1)) l := by
  rcases h.steps n with hnone | ⟨l, hlabel, hu, hstep⟩
  · exact Or.inl hnone
  · have hdrains := h.drains hl h0 n
    exact Or.inr ⟨l, hlabel, unload_cases hdrains.sound hl hdrains.control hu hstep⟩

theorem cells {n k : Nat} (hk : n ≤ k) :
    CellSteps ((r.state n).world.cell c) ((r.state k).world.cell c) := by
  induction hk with
  | refl => exact .refl
  | @step k _ ih =>
    rcases h.moves hl h0 k with ⟨-, heq⟩ | ⟨l, -, hmove⟩
    · rwa [heq]
    · exact ih.trans (hmove.cells (h.drains hl h0 k).sound c)

theorem rank_stays {n : Nat}
    (hno : ¬ ∃ k, n ≤ k ∧ rank ((r.state k).world.cell c) < rank ((r.state n).world.cell c))
    {k : Nat} (hk : n ≤ k) : rank ((r.state k).world.cell c) = rank ((r.state n).world.cell c) := by
  have hle := (h.cells hl h0 (c := c) hk).rank_le
  exact Nat.le_antisymm hle (Nat.le_of_not_lt fun hlt => hno ⟨k, hk, hlt⟩)

/-- Every call of `WorldDoNodeUnloadCommands` visits a node that is ready. -/
theorem visit_falls {n : Nat} (hready : ∀ k, n ≤ k → (r.state k).world.Ready c) :
    ∃ k, n ≤ k ∧ rank ((r.state k).world.cell c) < rank ((r.state n).world.cell c) := by
  by_contra hno
  have hidle : ∀ {k}, r.label k = some .worldDoNodeUnloadCommands →
      (r.state k).control = .idle ∧
        r.state (k + 1) = { r.state k with control := .unloading 0 0 } := by
    intro k hk
    have hstep := step_at k hk
    simp only [step] at hstep
    split at hstep
    · next hc => exact ⟨hc, (Option.some.inj hstep).symm⟩
    · cases hstep
  obtain ⟨j, hj, hlabel⟩ := h.unloadCommands n
  obtain ⟨-, henter⟩ := hidle hlabel
  -- the call goes on until it has visited the node
  have hahead : ∀ k, j + 1 ≤ k → Ahead (r.state k) c := by
    intro k hk
    induction hk with
    | refl =>
      obtain ⟨-, hlisted⟩ := (hready (j + 1) (by omega)).listed (h.drains hl h0 (j + 1)).sound
      rw [henter] at hlisted ⊢
      refine ⟨0, 0, rfl, ?_⟩
      rcases Nat.eq_zero_or_pos c.scaleIndex with hzero | hpos
      · exact Or.inr ⟨hzero.symm, by rwa [hzero] at hlisted⟩
      · exact Or.inl hpos
    | @step k hk ih =>
      rcases h.moves hl h0 k with ⟨-, heq⟩ | ⟨l, -, hmove⟩
      · rwa [heq]
      · have hk' : n ≤ k := Nat.le_trans (Nat.le_succ_of_le hj) hk
        rcases hmove.ahead (h.drains hl h0 k).sound (hready k hk') ih with hlt | hahead
        · rw [h.rank_stays hl h0 hno hk'] at hlt
          exact absurd ⟨k + 1, by omega, hlt⟩ hno
        · exact hahead
  obtain ⟨i, hi, hlabel'⟩ := h.unloadCommands (j + 1)
  obtain ⟨hc, -⟩ := hidle hlabel'
  obtain ⟨s, it, hc', -⟩ := hahead i hi
  cases hc.symm.trans hc'

/-- The write of a node finishes and stays finished until the node is destroyed. -/
theorem write_falls {n : Nat} {k : Cell D} (hk : (r.state n).world.cell c = some k)
    (hstate : k.state = .unloading)
    (hts : k.taskState = .writeDone ∨ k.taskState = .writeInProgress) :
    ∃ j, n ≤ j ∧ rank ((r.state j).world.cell c) < rank ((r.state n).world.cell c) := by
  by_contra hno
  have hpos : 0 < rank ((r.state n).world.cell c) := by
    rw [hk]
    rcases hts with hts | hts <;> simp [rank, hstate, hts]
  have hcell : ∀ j, n ≤ j → (r.state j).world.cell c = some k := by
    intro j hj
    have hcells := h.cells hl h0 (c := c) hj
    rw [hk] at hcells
    rcases hcells.writing hstate (by rcases hts with hts | hts <;> simp [hts]) with heq | hnone
    · exact heq
    · have hrank := h.rank_stays hl h0 hno hj
      rw [hnone] at hrank
      exact absurd hrank.symm (Nat.ne_of_gt hpos)
  -- from the end of the write on, every visit would destroy the node
  obtain ⟨i, hi, hready⟩ : ∃ i, n ≤ i ∧ ∀ j, i ≤ j → (r.state j).world.Ready c := by
    rcases hts with hdone | hwriting
    · exact ⟨n, Nat.le_refl n, fun j hj => ⟨k, hcell j hj, hstate, Or.inr (Or.inl hdone)⟩⟩
    · have htask : ∀ j, n ≤ j → ∃ τ io, k.task = some τ ∧ (r.state j).world.tasks τ = some io :=
        fun j hj => cell_task (h.drains hl h0 j).sound (hcell j hj) hwriting
      obtain ⟨τ, -, hτ, -⟩ := htask n (Nat.le_refl n)
      obtain ⟨i, hi, hfinished⟩ := h.tasks τ n
      obtain ⟨τ', io, hτ', hio⟩ := htask i hi
      cases hτ.symm.trans hτ'
      have hkept : ∀ j, i ≤ j → (r.state j).world.tasks τ = some io := by
        intro j hj
        induction hj with
        | refl => exact hio
        | @step j hj ih =>
          rcases h.moves hl h0 j with ⟨-, heq⟩ | ⟨l, -, hmove⟩
          · rwa [heq]
          · have hnj : n ≤ j := Nat.le_trans hi hj
            rcases hmove.finished (h.drains hl h0 j).sound (hcell j hnj) hτ ih
              (hfinished io hio) with hnone | hio'
            · cases (hcell (j + 1) (Nat.le_succ_of_le hnj)).symm.trans hnone
            · exact hio'
      refine ⟨i, hi, fun j hj => ⟨_, hcell j (by omega), hstate, Or.inr (Or.inr ⟨hwriting, τ, io,
        hτ, hkept j hj, hfinished io hio⟩)⟩⟩
  obtain ⟨j, hj, hlt⟩ := h.visit_falls hl h0 hready
  rw [h.rank_stays hl h0 hno hi] at hlt
  exact hno ⟨j, by omega, hlt⟩

theorem unloading (hun : (r.state 0).world.unloading = true) (n : Nat) :
    (r.state n).world.unloading = true := by
  induction n with
  | zero => exact hun
  | succ n ih =>
    rcases h.steps n with ⟨-, heq⟩ | ⟨l, -, hu, hstep⟩
    · rwa [heq]
    · have hdrains := h.drains hl h0 n
      exact (unloads_unloading hdrains.sound hdrains.control hu hstep).trans ih

/-- The scan of its scale marks a loaded node. -/
theorem scan_falls (hun : (r.state 0).world.unloading = true) {n : Nat} {k : Cell D}
    (hk : (r.state n).world.cell c = some k)
    (hno : ∀ j, n ≤ j → ∃ k, (r.state j).world.cell c = some k ∧ k.state = .loaded) : False := by
  obtain ⟨n', hat, -⟩ := at_of_cell hk
  have hlt := ((h.drains hl h0 n).sound.placed.live hat.find).1
  obtain ⟨j, hj, now, order, hlabel⟩ := h.scans _ hlt n
  have hdrains := h.drains hl h0 j
  have hstep := step_at j hlabel
  simp only [step] at hstep
  split at hstep
  · next hc =>
    obtain ⟨k, hk, hloaded⟩ := hno j hj
    obtain ⟨T, hstamp⟩ := stamp_of_cell hk
    rw [hloaded] at hstamp
    have hmem : c.position ∈ order := by
      rw [hc.2.2.mem_iff, AList.mem_keys.symm]
      exact AList.lookup_isSome.mp (hdrains.sound.hasNode_iff.mpr (by rw [hstamp]; rfl))
    have hmarked : (scaleUnloadUnutilizedNodes t c.scaleIndex now order (r.state j).world).stamp
        c.scaleIndex c.position = some (.unloading, T) :=
      scaleUnload_marks order hdrains.sound hmem hstamp (Or.inl (h.unloading hl h0 hun j))
    obtain ⟨k', hk', hstate'⟩ := hno (j + 1) (Nat.le_succ_of_le hj)
    obtain ⟨T', hstamp'⟩ := stamp_of_cell hk'
    rw [← Option.some.inj hstep, hstate'] at hstamp'
    cases hmarked.symm.trans hstamp'
  · cases hstep

/-- As long as a coordinate is occupied, its rank falls once more. -/
theorem rank_falls (hun : (r.state 0).world.unloading = true) {n : Nat}
    (hc : (r.state n).world.cell c ≠ none) :
    ∃ k, n ≤ k ∧ rank ((r.state k).world.cell c) < rank ((r.state n).world.cell c) := by
  rcases (h.drains hl h0 n).phase c with ⟨hnone, -⟩ | ⟨⟨k, hk, -⟩, hrank⟩ | ⟨hready, hrank⟩ |
    ⟨⟨k, hk, hstate, hts⟩, -⟩
  · exact absurd hnone hc
  · by_contra hno
    refine h.scan_falls hl h0 hun hk fun j hj => ?_
    have hj' := (h.rank_stays hl h0 hno hj).trans hrank
    rcases (h.drains hl h0 j).phase c with ⟨-, hr⟩ | ⟨hloaded, -⟩ | ⟨-, hr⟩ | ⟨-, hr⟩
    · omega
    · exact hloaded
    · omega
    · omega
  · by_contra hno
    refine hno (h.visit_falls hl h0 fun j hj => ?_)
    have hj' := (h.rank_stays hl h0 hno hj).trans hrank
    rcases (h.drains hl h0 j).phase c with ⟨-, hr⟩ | ⟨-, hr⟩ | ⟨hready', -⟩ | ⟨-, hr⟩
    · omega
    · omega
    · exact hready'
    · omega
  · exact h.write_falls hl h0 hk hstate hts

theorem vacates (hun : (r.state 0).world.unloading = true) (c : NodeCoord) :
    ∃ n, ∀ k, n ≤ k → (r.state k).world.cell c = none := by
  obtain ⟨n, -, hn⟩ := r.eventually (P := fun m => m.world.cell c = none)
    (fun m => rank (m.world.cell c)) (fun n hn => h.rank_falls hl h0 hun hn) 0
  refine ⟨n, fun k hk => ?_⟩
  have hcells := h.cells hl h0 (c := c) hk
  rw [hn] at hcells
  exact hcells.vacant

/-- The world gets empty and stays empty. -/
theorem empties (hun : (r.state 0).world.unloading = true) :
    ∃ n, ∀ k, n ≤ k → worldGetNodeCount t (r.state k).world = 0 := by
  -- the coordinates that are occupied at first
  let start : List NodeCoord := (List.range t.maxScale).flatMap fun s =>
    ((r.state 0).world.scales s).nodes.keys.map fun pos => ⟨pos, s⟩
  have hstart : ∀ c, (r.state 0).world.cell c ≠ none → c ∈ start := by
    intro c hc
    obtain ⟨k, hk⟩ := Option.ne_none_iff_exists'.mp hc
    obtain ⟨n, hat, -⟩ := at_of_cell hk
    have hlt := (h0.sound.placed.live hat.find).1
    have hkey : c.position ∈ ((r.state 0).world.scales c.scaleIndex).nodes.keys :=
      AList.mem_keys.mp (AList.lookup_isSome.mp (Option.isSome_iff_exists.mpr ⟨_, hat.find⟩))
    exact List.mem_flatMap.mpr ⟨c.scaleIndex, List.mem_range.mpr hlt,
      List.mem_map.mpr ⟨c.position, hkey, rfl⟩⟩
  have hall : ∀ cs : List NodeCoord,
      ∃ n, ∀ c ∈ cs, ∀ k, n ≤ k → (r.state k).world.cell c = none := by
    intro cs
    induction cs with
    | nil => exact ⟨0, fun c hc => by cases hc⟩
    | cons c cs ih =>
      obtain ⟨n, hn⟩ := h.vacates hl h0 hun c
      obtain ⟨n', hn'⟩ := ih
      refine ⟨max n n', fun c' hc' k hk => ?_⟩
      rcases List.mem_cons.mp hc' with rfl | hc'
      · exact hn k (Nat.le_trans (Nat.le_max_left n n') hk)
      · exact hn' c' hc' k (Nat.le_trans (Nat.le_max_right n n') hk)
  obtain ⟨n, hn⟩ := hall start
  refine ⟨n, fun k hk => ?_⟩
  have hsound := (h.drains hl h0 k).sound
  refine (worldGetNodeCount_eq_zero hsound.placed).mpr fun s pos hnode => ?_
  have hcell : (r.state k).world.cell ⟨pos, s⟩ ≠ none :=
    cell_of_stamp (hsound.hasNode_iff.mp hnode)
  refine hcell (hn _ (hstart _ fun hnone => ?_) k hk)
  have hcells := h.cells hl h0 (c := ⟨pos, s⟩) (Nat.zero_le k)
  rw [hnone] at hcells
  exact hcell hcells.vacant

end UnloadLoop

end CosmicArchitect.Spatial3D
