import CosmicArchitect.Library.Parts
import CosmicArchitect.Spatial3D.WorldFrames

/-!
# Scale tasks side by side (SpatialWorld.cpp:613-707, UniverseSimulation.cpp:127-195)

`SimulationDoMultitasks` runs `SimulationScaleUpdateTask` for every scale in its own thread. The
tasks of all scales of a world take their steps in any order; a step writes to one object at most. A
scale sees of the world its own nodes and command lists and the flag of the world.
-/

namespace CosmicArchitect.Spatial3D
open Serialize Library

variable {D : Type}

/- Where a task stands: in the loop of `ScaleUnloadUnutilizedNodes` over the rest of the map, or
   in `TouchNode` for the rest of the coordinates around the loaders. -/
inductive ScaleControl
  | unload (left : List Vector3i)
  | setUnloading (pos : Vector3i) (left : List Vector3i)
  | pushUnloading (pos : Vector3i) (left : List Vector3i)
  | load (left : List Vector3i)
  | create (pos : Vector3i) (left : List Vector3i)
  | init (pos : Vector3i) (left : List Vector3i)
  | pushLoading (pos : Vector3i) (left : List Vector3i)
  | touch (pos : Vector3i) (left : List Vector3i)
deriving DecidableEq, Repr

/-- A node right after `CreatePoly`. -/
def createdNode (t : TypeData D) : Node D :=
  { position := ⟨0, 0, 0⟩, scaleIndex := 0, body := t.newBody }

def World.alloc (w : World D) (a : Nat) (n : Node D) : World D :=
  { w with heap := Function.update w.heap a (some n) }

/-- The fields `TouchNode` sets (lines 632-634). -/
def Node.init (s : Nat) (pos : Vector3i) (n : Node D) : Node D :=
  { n with position := pos, scaleIndex := s, state := .loading }

/-- The node behind a slot of the map, which the task reads. -/
def World.nodeAt (w : World D) (s : Nat) (pos : Vector3i) : Option (Nat × Node D) :=
  (w.find s pos).join.bind fun a => (w.heap a).map fun n => (a, n)

/- One step of the task of scale `s`; `coords` are the coordinates around the loaders and `fresh`
   is the address of a block that `CreatePoly` can return. -/
def scaleStep (t : TypeData D) (now : Int) (coords : List Vector3i) (s fresh : Nat) (w : World D) :
    ScaleControl → Option (World D × ScaleControl)
  | .unload [] => some (w, .load coords)
  | .unload (pos :: left) =>
    match w.find s pos with
    | none => none
    | some none => some (w, .unload left)
    | some (some a) => (w.heap a).map fun n =>
      if (w.unloading ∨ t.nodeKeepalive < now - n.lastUpdateTime) ∧ n.state = .loaded then
        (w, .setUnloading pos left)
      else (w, .unload left)
  | .setUnloading pos left => (w.nodeAt s pos).map fun r =>
    (w.modify r.1 fun n => { n with state := .unloading }, .pushUnloading pos left)
  | .pushUnloading pos left => (w.nodeAt s pos).map fun r =>
    (w.setScale s fun scale => { scale with
      unloadingNodes := scale.unloadingNodes ++ [r.2.position] }, .unload left)
  | .load [] => none
  | .load (pos :: left) =>
    match w.find s pos with
    | none => some
      (w.setScale s fun scale => { scale with nodes := scale.nodes.insert pos none }, .create pos left)
    | some _ => some (w, .touch pos left)
  | .create pos left =>
    if (w.heap fresh).isNone then some
      ((w.alloc fresh (createdNode t)).setScale s fun scale =>
        { scale with nodes := scale.nodes.insert pos (some fresh) }, .init pos left)
    else none
  | .init pos left => (w.nodeAt s pos).map fun r =>
    (w.modify r.1 (Node.init s pos), .pushLoading pos left)
  | .pushLoading pos left => some
    (w.setScale s fun scale => { scale with loadingNodes := scale.loadingNodes ++ [pos] },
      .touch pos left)
  | .touch pos left => (w.nodeAt s pos).map fun r =>
    (w.modify r.1 fun n => { n with lastUpdateTime := now }, .load left)

structure ScaleTasks (D : Type) where
  world : World D
  control : Nat → ScaleControl

namespace ScaleTasks

/-- The tasks of all scales before their first step; `order s` is the order of the map. -/
def start (t : TypeData D) (w : World D) (order : Nat → List Vector3i) : ScaleTasks D :=
  ⟨w, fun s => if s < t.maxScale then .unload (order s) else .load []⟩

def Finished (m : ScaleTasks D) : Prop := ∀ s, m.control s = .load []

end ScaleTasks

/-- All ways in which the tasks of the scales can be interleaved. -/
def scaleTasksMachine (t : TypeData D) (now : Int) (loaders : List Loader) (w : World D)
    (order : Nat → List Vector3i) : Machine (ScaleTasks D) (Nat × Nat) where
  init m := m = .start t w order
  step m l := (scaleStep t now (nodesAroundLoaders loaders l.1) l.1 l.2 m.world (m.control l.1)).map
    fun r => ⟨r.1, Function.update m.control l.1 r.2⟩

/- One scale after the other: `ScaleUnloadUnutilizedNodes` and `ScaleLoadNodesAroundLoaders`. The
   scales come with the addresses `CreatePoly` would return. -/
def updateScales (t : TypeData D) (now : Int) (loaders : List Loader)
    (order : Nat → List Vector3i) : List (Nat × List Nat) → State D → Option (State D)
  | [], m => some m
  | (s, fresh) :: rest, m =>
    (Frame.scaleUpdate t { spatial := m, loaders := loaders, frameStartTime := now } s (order s)
      fresh).bind (updateScales t now loaders order rest)

/-! ### What one scale sees -/

/-- A scale with its nodes in place of their addresses. -/
@[ext] structure ScaleView (D : Type) where
  unloading : Bool
  node : Vector3i → Option (Option (Node D))
  loadingNodes : List Vector3i
  unloadingNodes : List Vector3i

namespace ScaleView

def setNode (v : ScaleView D) (pos : Vector3i) (n : Option (Node D)) : ScaleView D :=
  { v with node := Function.update v.node pos (some n) }

/-- The task of a scale, on what it sees. -/
def step (t : TypeData D) (now : Int) (coords : List Vector3i) (s : Nat) (v : ScaleView D) :
    ScaleControl → Option (ScaleView D × ScaleControl)
  | .unload [] => some (v, .load coords)
  | .unload (pos :: left) =>
    match v.node pos with
    | none => none
    | some none => some (v, .unload left)
    | some (some n) =>
      if (v.unloading ∨ t.nodeKeepalive < now - n.lastUpdateTime) ∧ n.state = .loaded then
        some (v, .setUnloading pos left)
      else some (v, .unload left)
  | .setUnloading pos left => (v.node pos).join.map fun n =>
    (v.setNode pos (some { n with state := .unloading }), .pushUnloading pos left)
  | .pushUnloading pos left => (v.node pos).join.map fun n =>
    ({ v with unloadingNodes := v.unloadingNodes ++ [n.position] }, .unload left)
  | .load [] => none
  | .load (pos :: left) =>
    match v.node pos with
    | none => some (v.setNode pos none, .create pos left)
    | some _ => some (v, .touch pos left)
  | .create pos left => some (v.setNode pos (some (createdNode t)), .init pos left)
  | .init pos left => (v.node pos).join.map fun n =>
    (v.setNode pos (some (n.init s pos)), .pushLoading pos left)
  | .pushLoading pos left => some
    ({ v with loadingNodes := v.loadingNodes ++ [pos] }, .touch pos left)
  | .touch pos left => (v.node pos).join.map fun n =>
    (v.setNode pos (some { n with lastUpdateTime := now }), .load left)

end ScaleView

def World.view (w : World D) (s : Nat) : ScaleView D where
  unloading := w.unloading
  node pos := (w.find s pos).map fun a => a.bind w.heap
  loadingNodes := (w.scales s).loadingNodes
  unloadingNodes := (w.scales s).unloadingNodes

/-- A pointer in a node map is live, no other slot of a map holds it, and `malloc` can always find
a block. -/
structure Owned (w : World D) : Prop where
  live : ∀ {s p a}, w.find s p = some (some a) → (w.heap a).isSome
  inj : ∀ {s s' p p' a}, w.find s p = some (some a) → w.find s' p' = some (some a) → s = s' ∧ p = p'
  free : ∃ k, ∀ a, k ≤ a → w.heap a = none

variable {t : TypeData D} {w w' : World D} {s s' a : Nat} {pos : Vector3i} {n : Node D}

@[simp] theorem World.heap_alloc (w : World D) (a : Nat) (n : Node D) :
    (w.alloc a n).heap = Function.update w.heap a (some n) := rfl

theorem find_insert (w : World D) (s : Nat) (pos : Vector3i) (v : NodePtr) (s' : Nat) (p : Vector3i) :
    (w.setScale s fun scale => { scale with nodes := scale.nodes.insert pos v }).find s' p =
      if s' = s ∧ p = pos then some v else w.find s' p :=
  w.find_insertNode s' p fun _ => rfl

theorem view_setScale_other (w : World D) (f : Scale → Scale) (hne : s' ≠ s) :
    (w.setScale s f).view s' = w.view s' := by
  simp only [World.view, World.find_setScale_of_ne w f hne, World.heap_setScale]
  simp only [World.scales_setScale, Function.update_of_ne hne]
  rfl

theorem view_node_at (hfind : w.find s pos = some (some a)) (hheap : w.heap a = some n) :
    (w.view s).node pos = some (some n) := by
  simp only [World.view, hfind, Option.map_some, Option.bind_some, hheap]

/-! ### The writes of a task -/

theorem heap_modify_self (hheap : w.heap a = some n) (f : Node D → Node D) :
    (w.modify a f).heap a = some (f n) := by
  rw [World.heap_modify, Function.update_self, hheap, Option.map_some]

/-- A write to the node behind a slot is seen at this slot only. -/
theorem view_modify (h : Owned w) (hfind : w.find s pos = some (some a)) (hheap : w.heap a = some n)
    (f : Node D → Node D) : (w.modify a f).view s = (w.view s).setNode pos (some (f n)) := by
  ext1
  · rfl
  · funext p
    by_cases hp : p = pos
    · subst hp
      rw [view_node_at (w := w.modify a f) hfind (heap_modify_self hheap f)]
      exact (Function.update_self p (some (some (f n))) (w.view s).node).symm
    · have hslot : ∀ b, w.find s p = some (some b) → b ≠ a := by
        intro b hb heq
        subst heq
        exact hp (h.inj hb hfind).2
      simp only [World.view, ScaleView.setNode, Function.update_of_ne hp, World.find_modify]
      rcases hb : w.find s p with _ | _ | b
      · rfl
      · rfl
      · simp only [Option.map_some, Option.bind_some, World.heap_modify,
          Function.update_of_ne (hslot b hb)]
  · rfl
  · rfl

theorem view_modify_other (h : Owned w) (hfind : w.find s pos = some (some a)) (f : Node D → Node D)
    (hne : s' ≠ s) : (w.modify a f).view s' = w.view s' := by
  have hslot : ∀ p b, w.find s' p = some (some b) → b ≠ a := by
    intro p b hb heq
    subst heq
    exact hne (h.inj hb hfind).1
  ext1
  · rfl
  · funext p
    simp only [World.view, World.find_modify]
    rcases hb : w.find s' p with _ | _ | b
    · rfl
    · rfl
    · simp only [Option.map_some, Option.bind_some, World.heap_modify,
        Function.update_of_ne (hslot p b hb)]
  · rfl
  · rfl

/-- A write to the command lists. -/
theorem view_push (w : World D) (s : Nat) {f : Scale → Scale}
    (hf : ∀ scale, (f scale).nodes = scale.nodes) : (w.setScale s f).view s =
      { w.view s with
        loadingNodes := (f (w.scales s)).loadingNodes
        unloadingNodes := (f (w.scales s)).unloadingNodes } := by
  simp only [World.view, World.find, World.scales_setScale, World.heap_setScale, Function.update_self,
    hf]
  rfl

theorem view_insert (w : World D) (s : Nat) (pos : Vector3i) (v : NodePtr) :
    (w.setScale s fun scale => { scale with nodes := scale.nodes.insert pos v }).view s =
      (w.view s).setNode pos (v.bind w.heap) := by
  ext1
  · rfl
  · funext p
    simp only [World.view, World.find, ScaleView.setNode, World.scales_setScale, World.heap_setScale,
      Function.update_self]
    by_cases hp : p = pos
    · subst hp
      rw [AList.lookup_insert, Function.update_self, Option.map_some]
    · rw [AList.lookup_insert_ne hp, Function.update_of_ne hp]
  · simp only [World.view, ScaleView.setNode, World.scales_setScale, Function.update_self]
  · simp only [World.view, ScaleView.setNode, World.scales_setScale, Function.update_self]

/-- No slot sees a block that was just allocated. -/
theorem view_alloc (h : Owned w) (hdead : w.heap a = none) (n : Node D) (s : Nat) :
    (w.alloc a n).view s = w.view s := by
  ext1
  · rfl
  · funext p
    simp only [World.view]
    change (w.find s p).map _ = _
    rcases hb : w.find s p with _ | _ | b
    · rfl
    · rfl
    · have hne : b ≠ a := by
        intro heq
        subst heq
        have hlive := h.live hb
        rw [hdead] at hlive
        cases hlive
      simp only [Option.map_some, Option.bind_some, World.heap_alloc, Function.update_of_ne hne]
  · rfl
  · rfl

/-- A write of the task of scale `s`: the other scales see nothing of it, and no slot loses its
node. -/
structure ActsOn (s : Nat) (w w' : World D) : Prop where
  owned : Owned w'
  view : ∀ {s'}, s' ≠ s → w'.view s' = w.view s'
  find : ∀ {s' p b}, w.find s' p = some (some b) → w'.find s' p = some (some b)
  scales : ∀ {s'}, s' ≠ s → w'.scales s' = w.scales s'
  unloading : w'.unloading = w.unloading
  background : w'.tasks = w.tasks ∧ w'.pool = w.pool ∧ w'.database = w.database

namespace ActsOn

theorem refl (h : Owned w) (s : Nat) : ActsOn s w w where
  owned := h
  view _ := rfl
  find h := h
  scales _ := rfl
  unloading := rfl
  background := ⟨rfl, rfl, rfl⟩

theorem modify (h : Owned w) (hfind : w.find s pos = some (some a)) (f : Node D → Node D) :
    ActsOn s w (w.modify a f) where
  owned := by
    have hsome : ∀ b, ((w.modify a f).heap b).isSome = (w.heap b).isSome := by
      intro b
      by_cases hb : b = a
      · subst hb
        rw [World.heap_modify, Function.update_self, Option.isSome_map]
      · rw [World.heap_modify, Function.update_of_ne hb]
    obtain ⟨k, hk⟩ := h.free
    refine ⟨?_, h.inj, k, ?_⟩
    · intro s p b hb
      rw [hsome]
      exact h.live hb
    · intro b hb
      rw [← Option.isNone_iff_eq_none, ← Option.not_isSome, hsome, hk b hb]
      rfl
  view hne := view_modify_other h hfind f hne
  find h := h
  scales _ := rfl
  unloading := rfl
  background := ⟨rfl, rfl, rfl⟩

/-- The task appends to its command lists. -/
theorem push (h : Owned w) (s : Nat) (f : Scale → Scale) (hf : ∀ scale, (f scale).nodes = scale.nodes) :
    ActsOn s w (w.setScale s f) := by
  have hfind := fun s' p => w.find_setScale_nodes s s' p hf
  refine ⟨⟨?_, ?_, h.free⟩, view_setScale_other w f, ?_,
    fun hne => Function.update_of_ne hne _ _, rfl, rfl, rfl, rfl⟩
  · intro s' p b hb
    rw [hfind] at hb
    exact h.live hb
  · intro s₁ s₂ p₁ p₂ b h₁ h₂
    rw [hfind] at h₁ h₂
    exact h.inj h₁ h₂
  · intro s' p b hb
    rw [hfind]
    exact hb

/-- `try_emplace(pos, nullptr)`. -/
theorem reserve (h : Owned w) (hfree : w.find s pos = none) :
    ActsOn s w (w.setScale s fun scale => { scale with nodes := scale.nodes.insert pos none }) := by
  have hold : ∀ {s' p b}, (w.setScale s fun scale =>
      { scale with nodes := scale.nodes.insert pos none }).find s' p = some (some b) →
      w.find s' p = some (some b) := by
    intro s' p b hb
    rw [find_insert] at hb
    split at hb
    · cases hb
    · exact hb
  refine ⟨⟨fun hb => h.live (hold hb), fun h₁ h₂ => h.inj (hold h₁) (hold h₂), h.free⟩,
    view_setScale_other w _, ?_, fun hne => Function.update_of_ne hne _ _, rfl, rfl, rfl, rfl⟩
  intro s' p b hb
  rw [find_insert, if_neg]
  · exact hb
  · intro heq
    rw [heq.1, heq.2, hfree] at hb
    cases hb

/-- `CreatePoly` for a slot that holds `nullptr`. -/
theorem create (h : Owned w) (hdead : w.heap a = none) (hnull : w.find s pos = some none)
    (n : Node D) : ActsOn s w ((w.alloc a n).setScale s fun scale =>
      { scale with nodes := scale.nodes.insert pos (some a) }) := by
  have hne : ∀ {s' p b}, w.find s' p = some (some b) → b ≠ a := by
    intro s' p b hb heq
    subst heq
    have hlive := h.live hb
    rw [hdead] at hlive
    cases hlive
  have hold : ∀ {s' p b}, ((w.alloc a n).setScale s fun scale =>
      { scale with nodes := scale.nodes.insert pos (some a) }).find s' p =
        some (some b) → s' = s ∧ p = pos ∧ b = a ∨ w.find s' p = some (some b) := by
    intro s' p b hb
    rw [find_insert] at hb
    split at hb
    · next heq =>
      cases hb
      exact .inl ⟨heq.1, heq.2, rfl⟩
    · exact .inr hb
  refine ⟨⟨?_, ?_, ?_⟩, ?_, ?_, fun hne => Function.update_of_ne hne _ _, rfl, rfl, rfl, rfl⟩
  · intro s' p b hb
    rcases hold hb with ⟨-, -, rfl⟩ | hb
    · rw [World.heap_setScale, World.heap_alloc, Function.update_self]
      rfl
    · rw [World.heap_setScale, World.heap_alloc, Function.update_of_ne (hne hb)]
      exact h.live hb
  · intro s₁ s₂ p₁ p₂ b h₁ h₂
    rcases hold h₁ with ⟨hs₁, hp₁, hb₁⟩ | hold₁
    · rcases hold h₂ with ⟨hs₂, hp₂, -⟩ | hold₂
      · exact ⟨hs₁.trans hs₂.symm, hp₁.trans hp₂.symm⟩
      · exact absurd hb₁ (hne hold₂)
    · rcases hold h₂ with ⟨-, -, hb₂⟩ | hold₂
      · exact absurd hb₂ (hne hold₁)
      · exact h.inj hold₁ hold₂
  · obtain ⟨k, hk⟩ := h.free
    refine ⟨max k (a + 1), fun b hb => ?_⟩
    rw [World.heap_setScale, World.heap_alloc, Function.update_of_ne (by omega)]
    exact hk b (by omega)
  · intro s' hs
    rw [view_setScale_other _ _ hs, view_alloc h hdead]
  · intro s' p b hb
    rw [find_insert, if_neg]
    · exact hb
    · intro heq
      rw [heq.1, heq.2, hnull] at hb
      cases hb

theorem trans {w'' : World D} (h : ActsOn s w w') (h' : ActsOn s w' w'') : ActsOn s w w'' where
  owned := h'.owned
  view hne := (h'.view hne).trans (h.view hne)
  find hb := h'.find (h.find hb)
  scales hne := (h'.scales hne).trans (h.scales hne)
  unloading := h'.unloading.trans h.unloading
  background := ⟨h'.background.1.trans h.background.1, h'.background.2.1.trans h.background.2.1,
    h'.background.2.2.trans h.background.2.2⟩

end ActsOn

/-! ### What one step of a task does -/

/-- The slot that holds `nullptr` while the task is between `try_emplace` and `CreatePoly`. -/
def ScaleControl.reserved : ScaleControl → Option Vector3i
  | .create pos _ => some pos
  | _ => none

/-- The slots the task relies on. -/
def ScaleControl.visits : ScaleControl → List Vector3i
  | .unload left => left
  | .setUnloading pos left | .pushUnloading pos left => pos :: left
  | .load _ | .create _ _ => []
  | .init pos _ | .pushLoading pos _ | .touch pos _ => [pos]

structure Ready (w : World D) (s : Nat) (c : ScaleControl) : Prop where
  null : ∀ p, w.find s p = some none ↔ c.reserved = some p
  stored : ∀ p ∈ c.visits, (w.find s p).isSome

inductive ScaleMove (t : TypeData D) (now : Int) (coords : List Vector3i) (s fresh : Nat)
    (w : World D) : ScaleControl → World D → ScaleControl → Prop
  | swept : ScaleMove t now coords s fresh w (.unload []) w (.load coords)
  | skip {pos left} : w.find s pos = some none →
      ScaleMove t now coords s fresh w (.unload (pos :: left)) w (.unload left)
  | keep {pos left a n} : w.At s pos a n →
      ¬ ((w.unloading ∨ t.nodeKeepalive < now - n.lastUpdateTime) ∧ n.state = .loaded) →
      ScaleMove t now coords s fresh w (.unload (pos :: left)) w (.unload left)
  | unutilized {pos left a n} : w.At s pos a n →
      (w.unloading ∨ t.nodeKeepalive < now - n.lastUpdateTime) ∧ n.state = .loaded →
      ScaleMove t now coords s fresh w (.unload (pos :: left)) w (.setUnloading pos left)
  | setUnloading {pos left a n} : w.At s pos a n →
      ScaleMove t now coords s fresh w (.setUnloading pos left)
        (w.modify a fun n => { n with state := .unloading }) (.pushUnloading pos left)
  | pushUnloading {pos left a n} : w.At s pos a n →
      ScaleMove t now coords s fresh w (.pushUnloading pos left)
        (w.setScale s fun scale =>
          { scale with unloadingNodes := scale.unloadingNodes ++ [n.position] }) (.unload left)
  | reserve {pos left} : w.find s pos = none →
      ScaleMove t now coords s fresh w (.load (pos :: left))
        (w.setScale s fun scale => { scale with nodes := scale.nodes.insert pos none })
        (.create pos left)
  | found {pos left v} : w.find s pos = some v →
      ScaleMove t now coords s fresh w (.load (pos :: left)) w (.touch pos left)
  | create {pos left} : w.heap fresh = none →
      ScaleMove t now coords s fresh w (.create pos left)
        ((w.alloc fresh (createdNode t)).setScale s fun scale =>
          { scale with nodes := scale.nodes.insert pos (some fresh) }) (.init pos left)
  | init {pos left a n} : w.At s pos a n →
      ScaleMove t now coords s fresh w (.init pos left) (w.modify a (Node.init s pos))
        (.pushLoading pos left)
  | pushLoading {pos left} : ScaleMove t now coords s fresh w (.pushLoading pos left)
      (w.setScale s fun scale => { scale with loadingNodes := scale.loadingNodes ++ [pos] })
      (.touch pos left)
  | touch {pos left a n} : w.At s pos a n → ScaleMove t now coords s fresh w (.touch pos left)
      (w.modify a fun n => { n with lastUpdateTime := now }) (.load left)

variable {now : Int} {coords : List Vector3i} {fresh : Nat} {c c' : ScaleControl}

theorem nodeAt_at {r : Nat × Node D} (h : w.nodeAt s pos = some r) : w.At s pos r.1 r.2 := by
  obtain ⟨b, hb, hmap⟩ := Option.bind_eq_some_iff.mp h
  obtain ⟨k, hk, rfl⟩ := Option.map_eq_some_iff.mp hmap
  exact ⟨Option.join_eq_some_iff.mp hb, hk⟩

theorem World.At.nodeAt (hat : w.At s pos a n) : w.nodeAt s pos = some (a, n) := by
  simp only [World.nodeAt, hat.find, Option.join_some, Option.bind_some, hat.heap, Option.map_some]

theorem scaleStep_move (h : scaleStep t now coords s fresh w c = some (w', c')) :
    ScaleMove t now coords s fresh w c w' c' := by
  cases c with
  | unload left =>
    cases left with
    | nil =>
      cases h
      exact .swept
    | cons pos left =>
      simp only [scaleStep] at h
      split at h
      · cases h
      · next hfind =>
        cases h
        exact .skip hfind
      · next a hfind =>
        obtain ⟨n, hheap, hn⟩ := Option.map_eq_some_iff.mp h
        split at hn
        · next hcond =>
          cases hn
          exact .unutilized ⟨hfind, hheap⟩ hcond
        · next hcond =>
          cases hn
          exact .keep ⟨hfind, hheap⟩ hcond
  | setUnloading pos left =>
    obtain ⟨r, hr, hw⟩ := Option.map_eq_some_iff.mp h
    cases hw
    exact .setUnloading (nodeAt_at hr)
  | pushUnloading pos left =>
    obtain ⟨r, hr, hw⟩ := Option.map_eq_some_iff.mp h
    cases hw
    exact .pushUnloading (nodeAt_at hr)
  | load left =>
    cases left with
    | nil => cases h
    | cons pos left =>
      simp only [scaleStep] at h
      split at h
      · next hfind =>
        cases h
        exact .reserve hfind
      · next hfind =>
        cases h
        exact .found hfind
  | create pos left =>
    simp only [scaleStep] at h
    split at h
    · next hdead =>
      cases h
      exact .create (Option.isNone_iff_eq_none.mp hdead)
    · cases h
  | init pos left =>
    obtain ⟨r, hr, hw⟩ := Option.map_eq_some_iff.mp h
    cases hw
    exact .init (nodeAt_at hr)
  | pushLoading pos left =>
    cases h
    exact .pushLoading
  | touch pos left =>
    obtain ⟨r, hr, hw⟩ := Option.map_eq_some_iff.mp h
    cases hw
    exact .touch (nodeAt_at hr)

/-- A step of a task acts on its own scale. -/
theorem ScaleMove.actsOn (h : Owned w) (hready : Ready w s c)
    (hmove : ScaleMove t now coords s fresh w c w' c') : ActsOn s w w' := by
  cases hmove with
  | swept | skip | keep | unutilized | found => exact .refl h s
  | setUnloading hat | init hat | touch hat => exact .modify h hat.find _
  | pushUnloading | pushLoading => exact .push h s _ fun _ => rfl
  | reserve hfree => exact .reserve h hfree
  | create hdead => exact .create h hdead ((hready.null _).mpr rfl) _

/-- What a task does is determined by what it sees. -/
theorem ScaleMove.view_step (h : Owned w) (hmove : ScaleMove t now coords s fresh w c w' c') :
    (w.view s).step t now coords s c = some (w'.view s, c') := by
  cases hmove with
  | swept => rfl
  | skip hfind => simp only [ScaleView.step, World.view, hfind, Option.map_some, Option.bind_none]
  | keep hat hcond =>
    simp only [ScaleView.step, view_node_at hat.find hat.heap]
    exact if_neg hcond
  | unutilized hat hcond =>
    simp only [ScaleView.step, view_node_at hat.find hat.heap]
    exact if_pos hcond
  | setUnloading hat | init hat | touch hat =>
    simp only [ScaleView.step, view_node_at hat.find hat.heap, Option.join_some, Option.map_some,
      view_modify h hat.find hat.heap]
  | pushUnloading hat =>
    simp only [ScaleView.step, view_node_at hat.find hat.heap, Option.join_some, Option.map_some]
    rw [view_push]
    · rfl
    · exact fun _ => rfl
  | pushLoading =>
    rw [view_push]
    · rfl
    · exact fun _ => rfl
  | reserve hfree =>
    have hnone : (w.view s).node _ = none := congrArg (Option.map _) hfree
    simp only [ScaleView.step, hnone, view_insert]
    rfl
  | found hfind =>
    have hsome : (w.view s).node _ = some _ := congrArg (Option.map _) hfind
    simp only [ScaleView.step, hsome]
  | create hdead =>
    simp only [ScaleView.step, view_insert, view_alloc h hdead, Option.bind_some, World.heap_alloc,
      Function.update_self]

/-! ### No task is stuck or endless -/

namespace Ready

theorem next (h : Ready w s c) (hfind : ∀ p, w'.find s p = w.find s p)
    (hreserved : c'.reserved = c.reserved) (hvisits : ∀ p ∈ c'.visits, (w.find s p).isSome) :
    Ready w' s c' where
  null p := by rw [hfind, hreserved, h.null]
  stored p hp := by
    rw [hfind]
    exact hvisits p hp

theorem move (h : Ready w s c) (hmove : ScaleMove t now coords s fresh w c w' c') :
    Ready w' s c' := by
  cases hmove with
  | swept => exact h.next (fun _ => rfl) rfl fun _ hp => absurd hp List.not_mem_nil
  | skip | keep => exact h.next (fun _ => rfl) rfl fun p hp => h.stored p (List.mem_cons_of_mem _ hp)
  | unutilized | setUnloading => exact h.next (fun _ => rfl) rfl h.stored
  | pushUnloading =>
    exact h.next (fun p => w.find_setScale_nodes s s p fun _ => rfl) rfl
      fun p hp => h.stored p (List.mem_cons_of_mem _ hp)
  | found hfind =>
    refine h.next (fun _ => rfl) rfl fun p hp => ?_
    rw [List.mem_singleton.mp hp, hfind]
    rfl
  | init => exact h.next (fun _ => rfl) rfl h.stored
  | pushLoading => exact h.next (fun p => w.find_setScale_nodes s s p fun _ => rfl) rfl h.stored
  | touch => exact h.next (fun _ => rfl) rfl fun _ hp => absurd hp List.not_mem_nil
  | @reserve pos left hfree =>
    refine ⟨fun p => ?_, fun _ hp => absurd hp List.not_mem_nil⟩
    rw [find_insert]
    split
    · next hp => simp only [ScaleControl.reserved, hp.2]
    · next hp =>
      have hne : pos ≠ p := fun heq => hp ⟨rfl, heq.symm⟩
      simp only [h.null, ScaleControl.reserved, Option.some.injEq, hne, reduceCtorEq]
  | @create pos left hdead =>
    refine ⟨fun p => ?_, fun p hp => ?_⟩
    · rw [find_insert]
      split
      · simp only [ScaleControl.reserved, Option.some.injEq, reduceCtorEq]
      · next hp =>
        have hne : pos ≠ p := fun heq => hp ⟨rfl, heq.symm⟩
        have hnull : w.find s p = some none ↔ some pos = some p := h.null p
        have hsame : (w.alloc fresh (createdNode t)).find s p = w.find s p := rfl
        simp only [hsame, hnull, ScaleControl.reserved, Option.some.injEq, hne, reduceCtorEq]
    · rw [find_insert, if_pos ⟨rfl, List.mem_singleton.mp hp⟩]
      rfl

/-- A slot the task relies on holds a node. -/
theorem node (h : Ready w s c) (howned : Owned w) (hreserved : c.reserved = none) {p : Vector3i}
    (hp : p ∈ c.visits) : ∃ a n, w.At s p a n := by
  obtain ⟨v, hv⟩ := Option.isSome_iff_exists.mp (h.stored p hp)
  cases v with
  | none =>
    have hnull := (h.null p).mp hv
    rw [hreserved] at hnull
    cases hnull
  | some a =>
    obtain ⟨n, hn⟩ := Option.isSome_iff_exists.mp (howned.live hv)
    exact ⟨a, n, hv, hn⟩

theorem enabled (h : Ready w s c) (howned : Owned w) (hunfinished : c ≠ .load [])
    (hdead : w.heap fresh = none) : (scaleStep t now coords s fresh w c).isSome := by
  cases c with
  | unload left =>
    cases left with
    | nil => rfl
    | cons pos left =>
      obtain ⟨a, n, hat⟩ := h.node howned rfl (List.mem_cons_self)
      simp only [scaleStep, hat.find, hat.heap, Option.map_some, Option.isSome_some]
  | setUnloading pos left =>
    obtain ⟨a, n, hat⟩ := h.node howned rfl (List.mem_cons_self)
    simp only [scaleStep, hat.nodeAt, Option.map_some, Option.isSome_some]
  | pushUnloading pos left =>
    obtain ⟨a, n, hat⟩ := h.node howned rfl (List.mem_cons_self)
    simp only [scaleStep, hat.nodeAt, Option.map_some, Option.isSome_some]
  | load left =>
    cases left with
    | nil => exact absurd rfl hunfinished
    | cons pos left =>
      simp only [scaleStep]
      split <;> rfl
  | create pos left =>
    simp only [scaleStep, hdead, Option.isNone_none, if_true, Option.isSome_some]
  | init pos left =>
    obtain ⟨a, n, hat⟩ := h.node howned rfl (List.mem_singleton_self pos)
    simp only [scaleStep, hat.nodeAt, Option.map_some, Option.isSome_some]
  | pushLoading pos left => rfl
  | touch pos left =>
    obtain ⟨a, n, hat⟩ := h.node howned rfl (List.mem_singleton_self pos)
    simp only [scaleStep, hat.nodeAt, Option.map_some, Option.isSome_some]

end Ready

/-- An upper bound for the steps that are left, with `k` coordinates around the loaders. -/
def ScaleControl.remaining (k : Nat) : ScaleControl → Nat
  | .unload left => 3 * left.length + 5 * k + 1
  | .setUnloading _ left => 3 * left.length + 5 * k + 3
  | .pushUnloading _ left => 3 * left.length + 5 * k + 2
  | .load left => 5 * left.length
  | .create _ left => 5 * left.length + 4
  | .init _ left => 5 * left.length + 3
  | .pushLoading _ left => 5 * left.length + 2
  | .touch _ left => 5 * left.length + 1

theorem ScaleMove.remaining_lt (hmove : ScaleMove t now coords s fresh w c w' c') :
    c'.remaining coords.length < c.remaining coords.length := by
  cases hmove <;> simp only [ScaleControl.remaining, List.length_cons, List.length_nil] <;> omega

end CosmicArchitect.Spatial3D
