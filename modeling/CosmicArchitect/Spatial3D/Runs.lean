import CosmicArchitect.Spatial3D.Ownership

/-!
# Invariants of whole runs

`reach_invariant` is the induction over a run: an assertion about the world and its history
that every effect keeps holds in every state reached. `Placed` and `Holds` are carried
along, so the effect lemma may use them. From the two follows that no call of a run leaves
the defined behaviour of the source.
-/

namespace CosmicArchitect.Spatial3D
open Relation

variable {D : Type} {t : TypeData D} {G : Guard} {db : NodeCoord → Option Serialize.Bytes}
  {m m' : State D}

/-- The guard that forbids nothing. -/
def Guard.any : Guard := ⟨True, True, True, True⟩

theorem Guard.any_admits (m : State D) (l : Label D) : Guard.any.Admits m l :=
  ⟨fun _ => trivial, fun _ => trivial, fun _ => trivial, fun _ => trivial⟩

/-- The invariants of the world in one. -/
structure Sound (t : TypeData D) (G : Guard) (w : World D) : Prop where
  placed : Placed t w
  holds : Holds t G w

theorem sound_initial (t : TypeData D) (G : Guard) (db : NodeCoord → Option Serialize.Bytes) :
    Sound t G (initial D db).world where
  placed := Placement.initial t.maxScale
  holds := Holding.initial G.unfinishedRead t.localNode

theorem effect_sound {c c' : World D × List Event} (h : Sound t G c.1) (he : Effect t G c c') :
    Sound t G c'.1 where
  placed := effect_placed h.placed he
  holds := effect_holds h.holds he

theorem effects_invariant {I : World D × List Event → Prop}
    (hI : ∀ {c c'}, Sound t G c.1 → I c → Effect t G c c' → I c')
    {c c' : World D × List Event} (hs : Sound t G c.1) (hc : I c) (he : Effects t G c c') :
    Sound t G c'.1 ∧ I c' := by
  induction he with
  | refl => exact ⟨hs, hc⟩
  | tail _ he ih => exact ⟨effect_sound ih.1 he, hI ih.1 ih.2 he⟩

theorem effects_sound {c c' : World D × List Event} (hs : Sound t G c.1)
    (he : Effects t G c c') : Sound t G c'.1 :=
  (effects_invariant (I := fun _ => True) (fun _ _ _ => trivial) hs trivial he).1

theorem step_sound (hs : Sound t Guard.any m.world) {l : Label D} (h : step t m l = some m') :
    Sound t Guard.any m'.world :=
  effects_sound hs (step_effects h (Guard.any_admits m l))

/-- An assertion kept by every effect holds in every state of a guarded run. -/
theorem reach_invariant {I : World D × List Event → Prop} (hinit : I (initial D db).config)
    (hI : ∀ {c c'}, Sound t G c.1 → I c → Effect t G c c' → I c')
    (h : (worldMachine t db).Reach G.Admits m) : Sound t G m.world ∧ I m.config := by
  refine h.invariant (I := fun m => Sound t G m.world ∧ I m.config) ?_ ?_
  · rintro s rfl
    exact ⟨sound_initial t G db, hinit⟩
  · intro s l s' _ hs hg hstep
    exact effects_invariant hI hs.1 hs.2 (step_effects hstep hg)

theorem sound_of_reach (h : (worldMachine t db).Reach G.Admits m) : Sound t G m.world :=
  (reach_invariant (I := fun _ => True) trivial (fun _ _ _ => trivial) h).1

theorem reach_any (h : (worldMachine t db).Reachable m) :
    (worldMachine t db).Reach Guard.any.Admits m :=
  h.mono fun m l _ => Guard.any_admits m l

/-! ### An address for the next task -/

/-- From some address on nothing is allocated. -/
def World.HasRoom (w : World D) : Prop := ∃ N, ∀ τ, N ≤ τ → w.tasks τ = none

theorem World.HasRoom.of_tasks {w w' : World D} (h : w.HasRoom) {N : Nat}
    (hN : ∀ τ, N ≤ τ → w.tasks τ = none → w'.tasks τ = none) : w'.HasRoom := by
  obtain ⟨M, hM⟩ := h
  exact ⟨max M N, fun τ hτ => hN τ (Nat.le_trans (Nat.le_max_right M N) hτ)
    (hM τ (Nat.le_trans (Nat.le_max_left M N) hτ))⟩

theorem World.HasRoom.update {w w' : World D} (h : w.HasRoom) {τ : Nat} {io : Option IOTask}
    (hw : w'.tasks = Function.update w.tasks τ io) : w'.HasRoom := by
  refine h.of_tasks (N := τ + 1) fun τ' hτ' hnone => ?_
  rw [hw, Function.update_of_ne (by omega), hnone]

theorem tasks_finishUnload {s a : Nat} {pos : Vector3i} {w : World D} (τ : Nat)
    (h : w.tasks τ = none) : (finishUnload t s w a pos).tasks τ = none := by
  have hcore := (tasks_of_core (core_unlinkNode t.maxScale w a s)).1
  have hfree : ∀ w : World D, w.tasks τ = none → (destroyPoly w a).tasks τ = none := by
    intro w hw
    unfold destroyPoly
    dsimp only
    split
    · next τ' _ =>
      show Function.update w.tasks τ' none τ = none
      by_cases hτ : τ = τ'
      · rw [hτ, Function.update_self]
      · rw [Function.update_of_ne hτ, hw]
    · exact hw
  exact hfree _ ((congrFun hcore τ).trans h)

theorem effect_hasRoom {c c' : World D × List Event} (h : c.1.HasRoom) (he : Effect t G c c') :
    c'.1.HasRoom := by
  cases he with
  | startRead => exact h.update rfl
  | finishRead => exact h.update rfl
  | @load w tr s it pos a n now _ _ _ _ =>
    have htasks := (tasks_of_core (core_finishLoad t s a n.position now w)).1
    exact h.of_tasks (N := 0) fun τ _ hnone => (congrFun htasks τ).trans hnone
  | startWrite => exact h.update rfl
  | destroy => exact h.of_tasks (N := 0) fun τ _ hnone => tasks_finishUnload τ hnone
  | @destroyWritten w _ _ _ _ a _ τ _ _ _ _ _ _ _ _ _ _ _ =>
    have hroom : (w.finishWrite a τ).HasRoom := h.update rfl
    exact hroom.of_tasks (N := 0) fun τ _ hnone => tasks_finishUnload τ hnone
  | performRead => exact h.update rfl
  | performWrite => exact h.update rfl
  | finish => exact h.update rfl
  | _ => exact h

theorem step_hasRoom (hs : Sound t Guard.any m.world) (h : m.world.HasRoom) {l : Label D}
    (hstep : step t m l = some m') : m'.world.HasRoom :=
  (effects_invariant (I := fun c => c.1.HasRoom) (fun _ h => effect_hasRoom h) hs h
    (step_effects hstep (Guard.any_admits m l))).2

/-! ### No call fails -/

theorem Sound.find {w : World D} (hw : Sound t G w) {s : Nat} {pos : Vector3i} {v : NodePtr}
    (h : w.find s pos = some v) : ∃ a n, v = some a ∧ w.At s pos a n := by
  obtain ⟨-, a, st, rfl, hpl, -⟩ := hw.placed.live h
  obtain ⟨n, hn, -⟩ := Option.map_eq_some_iff.mp hpl
  exact ⟨a, n, rfl, h, hn⟩

theorem Sound.loading {w : World D} (hw : Sound t G w) {s it : Nat} {pos : Vector3i}
    (h : (w.scales s).loadingNodes[it]? = some pos) :
    ∃ a n, w.At s pos a n ∧ n.state = .loading := by
  obtain ⟨a, ha, hpl⟩ := (hw.placed.loading s pos).mp (List.mem_of_getElem? h)
  obtain ⟨n, hn, hst⟩ := Option.map_eq_some_iff.mp hpl
  exact ⟨a, n, ⟨ha, hn⟩, congrArg Prod.snd hst⟩

theorem Sound.unloading {w : World D} (hw : Sound t G w) {s it : Nat} {pos : Vector3i}
    (h : (w.scales s).unloadingNodes[it]? = some pos) :
    ∃ a n, w.At s pos a n ∧ n.state = .unloading := by
  obtain ⟨a, ha, hpl⟩ := (hw.placed.unloading s pos).mp (List.mem_of_getElem? h)
  obtain ⟨n, hn, hst⟩ := Option.map_eq_some_iff.mp hpl
  exact ⟨a, n, ⟨ha, hn⟩, congrArg Prod.snd hst⟩

theorem Sound.task {w : World D} (hw : Sound t G w) {a : Nat} {n : Node D}
    (hn : w.heap a = some n) (hts : n.taskState = .readInProgress ∨ n.taskState = .writeInProgress) :
    ∃ τ io, n.task = some τ ∧ w.tasks τ = some io := by
  have hshape := hw.holds.shape (hold_of_heap hn)
  have hne : n.task ≠ none := by
    rcases hts with hts | hts <;> cases hst : n.state <;> simp_all [Shape, Node.hold]
  obtain ⟨τ, hτ⟩ := Option.ne_none_iff_exists'.mp hne
  obtain ⟨io, hio⟩ := hw.holds.live (hold_of_heap hn) hτ
  exact ⟨τ, io, hτ, hio⟩

theorem progressNodeReadTask_isSome {w : World D} (hw : Sound t G w) {a : Nat} {n : Node D}
    (hn : w.heap a = some n) (fresh seed : Nat) (c : NodeCoord) :
    (progressNodeReadTask t fresh seed c w a n).isSome := by
  unfold progressNodeReadTask
  cases hts : n.taskState with
  | idle => cases n.task <;> rfl
  | readInProgress =>
    obtain ⟨τ, io, hτ, hio⟩ := hw.task hn (Or.inl hts)
    simp only [hτ, Option.bind_some, hio, Option.map_some]
    split <;> rfl
  | readDone => rfl
  | writeInProgress => rfl
  | writeDone => rfl

theorem progressNodeWriteTask_isSome {w : World D} (hw : Sound t G w) {a : Nat} {n : Node D}
    (hn : w.heap a = some n) (fresh : Nat) (c : NodeCoord) :
    (progressNodeWriteTask t fresh c w a n).isSome := by
  unfold progressNodeWriteTask
  cases hts : n.taskState with
  | idle => cases n.task <;> rfl
  | writeInProgress =>
    obtain ⟨τ, io, hτ, hio⟩ := hw.task hn (Or.inr hts)
    simp only [hτ, Option.bind_some, hio, Option.map_some]
    split <;> rfl
  | readInProgress => rfl
  | readDone => rfl
  | writeDone => rfl

theorem loadNode_isSome {w : World D} (hw : Sound t G w) {a : Nat} {n : Node D}
    (hn : w.heap a = some n) (s : Nat) (now : Int) (fresh seed : Nat) :
    (loadNode t s now fresh seed w a n).isSome := by
  unfold loadNode
  split
  · obtain ⟨poll, hpoll⟩ := Option.isSome_iff_exists.mp
      (progressNodeReadTask_isSome hw hn fresh seed ⟨n.position, s⟩)
    simp only [hpoll]
    split <;> rfl
  · rfl

theorem unloadNode_isSome {w : World D} (hw : Sound t G w) {a : Nat} {n : Node D}
    (hn : w.heap a = some n) (s fresh : Nat) : (unloadNode t s fresh w a n).isSome := by
  unfold unloadNode
  split
  · obtain ⟨poll, hpoll⟩ := Option.isSome_iff_exists.mp
      (progressNodeWriteTask_isSome hw hn fresh ⟨n.position, s⟩)
    simp only [hpoll]
    split <;> rfl
  · rfl

def Control.isFault : Control → Bool
  | .fault _ => true
  | _ => false

theorem not_failed_of_control (h : m.control.isFault = false) : ¬ m.Failed := by
  rintro ⟨f, hf⟩
  rw [hf] at h
  cases h

theorem nextLoad_not_failed (hw : Sound t G m.world) (fresh seed : Nat)
    (now : Int) (s it : Nat) : ¬ (nextLoad t fresh seed m now s it).Failed := by
  unfold nextLoad
  split
  case isFalse => exact not_failed_of_control rfl
  case isTrue =>
  split
  case h_1 => exact not_failed_of_control rfl
  case h_2 pos hpos =>
  obtain ⟨a, n, hat, hst⟩ := hw.loading hpos
  obtain ⟨poll, hpoll⟩ := Option.isSome_iff_exists.mp
    (loadNode_isSome hw hat.heap s now fresh seed)
  simp only [hat.find, hat.heap, hst, if_true, hpoll]
  split
  · exact not_failed_of_control rfl
  · exact not_failed_of_control rfl

theorem nextUnload_not_failed (hw : Sound t G m.world) (fresh : Nat)
    (s it : Nat) : ¬ (nextUnload t fresh m s it).Failed := by
  unfold nextUnload
  split
  case isFalse => exact not_failed_of_control rfl
  case isTrue =>
  split
  case h_1 => exact not_failed_of_control rfl
  case h_2 pos hpos =>
  obtain ⟨a, n, hat, hst⟩ := hw.unloading hpos
  obtain ⟨poll, hpoll⟩ := Option.isSome_iff_exists.mp (unloadNode_isSome hw hat.heap s fresh)
  simp only [hat.find, hat.heap, hst, if_true, hpoll]
  split
  · exact not_failed_of_control rfl
  · exact not_failed_of_control rfl

theorem touchNode_isSome {w : World D} (hw : Sound t G w) (s : Nat) (pos : Vector3i) (now : Int)
    (fresh : Nat) : (touchNode t s pos now fresh w).isSome := by
  unfold touchNode
  split
  · rfl
  · next hfind =>
    obtain ⟨a, n, ha, -⟩ := hw.find hfind
    cases ha
  · next b hfind =>
    obtain ⟨a, n, ha, hat⟩ := hw.find hfind
    cases ha
    simp only [hat.heap, Option.isSome_some, if_true]

/-- A background task always finds its `IOTask`. -/
theorem Sound.pool {w : World D} (hw : Sound t G w) {i : Nat} {e : PoolTask}
    (h : w.pool[i]? = some e) : ∃ io, w.tasks e.task = some io := by
  obtain ⟨-, -, io, -, -, hio, -, -⟩ := hw.holds.owner (List.mem_of_getElem? h)
  exact ⟨io, hio⟩

theorem step_not_failed (hw : Sound t G m.world) (hm : ¬ m.Failed) {l : Label D}
    (h : step t m l = some m') : ¬ m'.Failed := by
  cases l with
  | touchNode s pos now fresh =>
    obtain ⟨out, hout⟩ := Option.isSome_iff_exists.mp (touchNode_isSome hw s pos now fresh)
    simp only [step, hout] at h
    split at h
    · cases h; exact not_failed_of_control rfl
    · cases h
  | editNode s pos body =>
    simp only [step] at h
    split at h
    · obtain ⟨a, -, rfl⟩ := Option.map_eq_some_iff.mp h
      exact hm
    · cases h
  | scaleUnloadUnutilizedNodes s now order =>
    simp only [step] at h
    split at h
    · cases h; exact hm
    · cases h
  | unloadWorld =>
    simp only [step] at h
    split at h
    · cases h; exact hm
    · cases h
  | worldDoNodeLoadCommands now =>
    simp only [step] at h
    split at h
    · cases h; exact not_failed_of_control rfl
    · cases h
  | worldDoNodeUnloadCommands =>
    simp only [step] at h
    split at h
    · cases h; exact not_failed_of_control rfl
    · cases h
  | next fresh seed =>
    simp only [step] at h
    split at h
    · split at h
      · cases h; exact nextLoad_not_failed hw fresh seed _ _ _
      · cases h; exact nextUnload_not_failed hw fresh _ _
      · cases h
    · cases h
  | perform i outcome =>
    simp only [step] at h
    split at h
    · next e he =>
      obtain ⟨io, hio⟩ := hw.pool he
      split at h
      · cases h
        simp only [perform, hio]
        exact hm
      · cases h
    · cases h
  | finish i =>
    simp only [step] at h
    split at h
    · next e he =>
      obtain ⟨io, hio⟩ := hw.pool he
      split at h
      · cases h
        simp only [finish, hio]
        exact hm
      · cases h
    · cases h

/-- No call of a run dereferences a null or freed pointer or violates an assertion. -/
theorem reach_not_failed (h : (worldMachine t db).Reach G.Admits m) : ¬ m.Failed := by
  refine h.invariant (I := fun m => ¬ m.Failed) ?_ ?_
  · rintro s rfl
    exact not_failed_of_control rfl
  · intro s l s' hr hs _ hstep
    exact step_not_failed (sound_of_reach hr) hs hstep

end CosmicArchitect.Spatial3D
