import CosmicArchitect.Spatial3D.WorldFrames

/-!
# State and last touch of a coordinate

The unload checks of a scale read two things about a coordinate: the state of its node and
the time of its last update. `stamp` keeps these and forgets the rest. What the calls of
one frame do to the stamps is stated once for each call.
-/

namespace CosmicArchitect.Spatial3D
open Serialize

variable {D : Type} {t : TypeData D} {G : Guard} {w w' : World D} {s a : Nat} {pos : Vector3i}
  {n : Node D}

abbrev Stamp := NodeState × Int

def Node.stamp (n : Node D) : Stamp := (n.state, n.lastUpdateTime)

def World.stamp (w : World D) (s : Nat) (pos : Vector3i) : Option Stamp :=
  (w.find s pos).join.bind fun a => (w.heap a).map Node.stamp

/-- A node is stored at position `pos` of scale `s`. -/
def World.HasNode (w : World D) (s : Nat) (pos : Vector3i) : Prop := (w.find s pos).isSome

/-- The part of a node on which its stamp and its place depend. -/
def Node.key (n : Node D) : Vector3i × Stamp := (n.position, n.stamp)

/-- The maps and the keys of all nodes agree. -/
structure World.Alike (w w' : World D) : Prop where
  scales : w'.scales = w.scales
  unloading : w'.unloading = w.unloading
  key : ∀ b, (w'.heap b).map Node.key = (w.heap b).map Node.key

namespace World.Alike

theorem refl (w : World D) : w.Alike w := ⟨rfl, rfl, fun _ => rfl⟩

theorem trans {w'' : World D} (h : w.Alike w') (h' : w'.Alike w'') : w.Alike w'' :=
  ⟨h'.scales.trans h.scales, h'.unloading.trans h.unloading,
    fun b => (h'.key b).trans (h.key b)⟩

theorem modify (w : World D) (a : Nat) {f : Node D → Node D} (hf : ∀ n, (f n).key = n.key) :
    w.Alike (w.modify a f) := by
  refine ⟨rfl, rfl, fun b => ?_⟩
  rw [World.heap_modify]
  by_cases hb : b = a
  · subst hb
    rw [Function.update_self, Option.map_map]
    exact congrArg (Option.map · (w.heap b)) (funext hf)
  · rw [Function.update_of_ne hb]

theorem of_core (h : w'.core = w.core) : w.Alike w' := by
  refine ⟨scales_of_core h, ?_, fun b => ?_⟩
  · show w'.core.unloading = w.core.unloading
    rw [h]
  · have hb := congrArg (Option.map Node.key) (congrFun (congrArg World.heap h) b)
    simp only [World.core, Option.map_map] at hb
    exact hb

theorem of_heap (hscales : w'.scales = w.scales) (hunloading : w'.unloading = w.unloading)
    (hheap : w'.heap = w.heap) : w.Alike w' :=
  ⟨hscales, hunloading, fun b => by rw [hheap]⟩

theorem place (h : w.Alike w') : w'.place = w.place := by
  funext b
  have hb := congrArg (Option.map fun k : Vector3i × Stamp => (k.1, k.2.1)) (h.key b)
  simp only [Option.map_map] at hb
  exact hb

theorem placed (h : w.Alike w') (hw : Placed t w) : Placed t w' :=
  placed_keep hw h.scales h.place

theorem stamp (h : w.Alike w') : w'.stamp = w.stamp := by
  funext s pos
  have hstamp : ∀ b, (w'.heap b).map Node.stamp = (w.heap b).map Node.stamp := by
    intro b
    have hb := congrArg (Option.map Prod.snd) (h.key b)
    simp only [Option.map_map] at hb
    exact hb
  simp only [World.stamp, World.find, h.scales, hstamp]

theorem stored (h : w.Alike w') (hat : w.At s pos a n) :
    ∃ n', w'.At s pos a n' ∧ n'.key = n.key := by
  have ha := h.key a
  rw [hat.heap, Option.map_some] at ha
  obtain ⟨n', hn', hkey⟩ := Option.map_eq_some_iff.mp ha
  refine ⟨n', ⟨?_, hn'⟩, hkey⟩
  have hfind := hat.find
  simp only [World.find] at hfind ⊢
  rwa [h.scales]

end World.Alike

theorem stamp_of_at (hat : w.At s pos a n) : w.stamp s pos = some n.stamp := by
  simp only [World.stamp, hat.find, Option.join_some, Option.bind_some, hat.heap, Option.map_some]

/-- In a sound world the stored coordinates are those with a stamp. -/
theorem Sound.hasNode_iff (hs : Sound t G w) : w.HasNode s pos ↔ (w.stamp s pos).isSome := by
  unfold World.HasNode
  cases hfind : w.find s pos with
  | none => simp [World.stamp, hfind]
  | some v =>
    obtain ⟨a, n, rfl, hat⟩ := hs.find hfind
    simp [stamp_of_at hat]

theorem Placed.hasNode_lt (hw : Placed t w) (h : w.HasNode s pos) : s < t.maxScale := by
  obtain ⟨v, hv⟩ := Option.isSome_iff_exists.mp h
  exact (hw.live hv).1

theorem stamp_of_ne (hw : Placed t w) (hat : w.At s pos a n) {s' : Nat} {pos' : Vector3i}
    (hne : ¬ (s' = s ∧ pos' = pos)) (hfind : w'.find s' pos' = w.find s' pos')
    (hheap : ∀ b, b ≠ a → (w'.heap b).map Node.stamp = (w.heap b).map Node.stamp) :
    w'.stamp s' pos' = w.stamp s' pos' := by
  simp only [World.stamp, hfind]
  cases hb : w.find s' pos' with
  | none => rfl
  | some v =>
    cases v with
    | none => rfl
    | some b =>
      have hba : b ≠ a := by
        rintro rfl
        exact hne (hw.unique hb hat.find)
      exact hheap b hba

theorem stamp_modify (hw : Placed t w) (hat : w.At s pos a n) (f : Node D → Node D)
    (s' : Nat) (pos' : Vector3i) : (w.modify a f).stamp s' pos' =
      if s' = s ∧ pos' = pos then some (f n).stamp else w.stamp s' pos' := by
  by_cases heq : s' = s ∧ pos' = pos
  · obtain ⟨rfl, rfl⟩ := heq
    rw [if_pos ⟨rfl, rfl⟩]
    refine stamp_of_at ⟨hat.find, ?_⟩
    rw [World.heap_modify, Function.update_self, hat.heap, Option.map_some]
  · rw [if_neg heq]
    refine stamp_of_ne hw hat heq rfl fun b hb => ?_
    rw [World.heap_modify, Function.update_of_ne hb]

theorem stamp_setScale (w : World D) (s : Nat) {f : Scale → Scale}
    (hf : ∀ scale, (f scale).nodes = scale.nodes) : (w.setScale s f).stamp = w.stamp := by
  funext s' pos'
  rw [World.stamp, w.find_setScale_nodes s s' pos' hf]
  rfl

/-! ### Load and unload callbacks -/

theorem World.Alike.modified {v : World D} (h : w.Alike v) {a : Nat} {f : Node D → Node D}
    (hf : ∀ n, (f n).key = n.key) : w.Alike (v.modify a f) :=
  h.trans (.modify v a hf)

theorem progressNodeReadTask_alike {fresh seed : Nat} {c : NodeCoord} {poll : Poll D}
    (h : progressNodeReadTask t fresh seed c w a n = some poll) : w.Alike poll.world := by
  unfold progressNodeReadTask at h
  split at h
  · split at h
    · cases h
      apply World.Alike.modified
      · exact .of_heap rfl rfl rfl
      · exact fun _ => rfl
    · cases h; exact .refl w
  · split at h
    · cases h
    · split at h
      · cases h
        apply World.Alike.modified
        · exact .of_heap rfl rfl rfl
        · exact fun _ => rfl
      · cases h; exact .refl w
  · cases h; exact .refl w
  · cases h; exact .refl w

theorem progressNodeWriteTask_alike {fresh : Nat} {c : NodeCoord} {poll : Poll D}
    (h : progressNodeWriteTask t fresh c w a n = some poll) : w.Alike poll.world := by
  unfold progressNodeWriteTask at h
  split at h
  · split at h
    · cases h
      apply World.Alike.modified
      · exact .of_heap rfl rfl rfl
      · exact fun _ => rfl
    · cases h; exact .refl w
  · split at h
    · cases h
    · split at h
      · cases h
        apply World.Alike.modified
        · exact .of_heap rfl rfl rfl
        · exact fun _ => rfl
      · cases h; exact .refl w
  · cases h; exact .refl w
  · cases h; exact .refl w

/-- What one callback of a command loop may do to a coordinate. -/
inductive Visit (now : Int) : Option Stamp → Option Stamp → Prop
  | keep {x} : Visit now x x
  | load {T} : Visit now (some (.loading, T)) (some (.loaded, now))
  | destroy {T} : Visit now (some (.unloading, T)) none

theorem stamp_finishLoad (hw : Placed t w) (hat : w.At s pos a n) (now : Int) (s' : Nat)
    (pos' : Vector3i) : (finishLoad t s now w a pos).stamp s' pos' =
      if s' = s ∧ pos' = pos then some (.loaded, now) else w.stamp s' pos' := by
  have hlink := (World.Alike.of_core (core_finishLoad t s a pos now w)).stamp
  have hat' : (w.modify a (Node.afterLoad t now)).At s pos a (n.afterLoad t now) := by
    refine ⟨hat.find, ?_⟩
    rw [World.heap_modify, Function.update_self, hat.heap, Option.map_some]
  rw [hlink]
  refine Eq.trans ?_ (stamp_modify hw hat (Node.afterLoad t now) s' pos')
  rw [World.stamp, World.find_insertNode_same hat'.find s' pos' fun _ => rfl]
  rfl

theorem stamp_finishUnload (hw : Placed t w) (hat : w.At s pos a n) (s' : Nat)
    (pos' : Vector3i) : (finishUnload t s w a pos).stamp s' pos' =
      if s' = s ∧ pos' = pos then none else w.stamp s' pos' := by
  have hfind : ∀ s'' p'', (finishUnload t s w a pos).find s'' p'' =
      if s'' = s ∧ p'' = pos then none else w.find s'' p'' := by
    intro s'' p''
    simp only [World.find, scales_finishUnload]
    by_cases hs : s'' = s
    · subst hs
      rw [Function.update_self]
      by_cases hp : p'' = pos
      · rw [if_pos ⟨rfl, hp⟩, hp, AList.lookup_erase]
      · rw [if_neg fun h => hp h.2, AList.lookup_erase_ne hp]
    · rw [Function.update_of_ne hs, if_neg fun h => hs h.1]
  by_cases heq : s' = s ∧ pos' = pos
  · rw [if_pos heq]
    simp only [World.stamp, hfind, if_pos heq]
    rfl
  · rw [if_neg heq]
    refine stamp_of_ne hw hat heq (by rw [hfind, if_neg heq]) fun b hb => ?_
    have hunlink := (World.Alike.of_core (core_unlinkNode t.maxScale w a s)).key b
    have hstamp := congrArg (Option.map Prod.snd) hunlink
    simp only [Option.map_map] at hstamp
    refine Eq.trans ?_ hstamp
    simp only [finishUnload, heap_destroyPoly, World.heap_setScale, World.heap_modify,
      Function.update_of_ne hb]
    rfl

/-- A world before and after a callback of a command loop. -/
structure Visited (now : Int) (w w' : World D) : Prop where
  stamp : ∀ s pos, Visit now (w.stamp s pos) (w'.stamp s pos)
  unloading : w'.unloading = w.unloading

theorem Visited.refl (now : Int) (w : World D) : Visited now w w := ⟨fun _ _ => .keep, rfl⟩

theorem World.Alike.visited (h : w.Alike w') (now : Int) : Visited now w w' :=
  ⟨fun s pos => by rw [h.stamp]; exact .keep, h.unloading⟩

theorem visited_finishLoad (hw : Placed t w) (halike : w.Alike w') (hat : w.At s pos a n)
    (hstate : n.state = .loading) (now : Int) :
    Visited now w (finishLoad t s now w' a n.position) := by
  obtain ⟨n', hat', -⟩ := halike.stored hat
  have hpos := hw.position hat
  refine ⟨fun s' pos' => ?_, ?_⟩
  · rw [hpos, stamp_finishLoad (halike.placed hw) hat', halike.stamp]
    split
    · next heq =>
      rw [heq.1, heq.2, stamp_of_at hat, Node.stamp, hstate]
      exact .load
    · exact .keep
  · exact (World.Alike.of_core (core_finishLoad t s a n.position now w')).unloading.trans
      halike.unloading

theorem visited_finishUnload (hw : Placed t w) (halike : w.Alike w') (hat : w.At s pos a n)
    (hstate : n.state = .unloading) (now : Int) :
    Visited now w (finishUnload t s w' a n.position) := by
  obtain ⟨n', hat', -⟩ := halike.stored hat
  have hpos := hw.position hat
  refine ⟨fun s' pos' => ?_, ?_⟩
  · rw [hpos, stamp_finishUnload (halike.placed hw) hat', halike.stamp]
    split
    · next heq =>
      rw [heq.1, heq.2, stamp_of_at hat, Node.stamp, hstate]
      exact .destroy
    · exact .keep
  · have hdestroy : ∀ v : World D, (destroyPoly v a).unloading = v.unloading := by
      intro v
      unfold destroyPoly
      split <;> rfl
    have hunlink := (World.Alike.of_core (core_unlinkNode t.maxScale w' a s)).unloading
    exact (hdestroy _).trans (hunlink.trans halike.unloading)

theorem loadNode_visited {m : State D} (hs : Sound t G m.world) {fresh seed : Nat} {now : Int}
    (hat : m.world.At s pos a n) (hstate : n.state = .loading) {poll : Poll D}
    (hpoll : loadNode t s now fresh seed m.world a n = some poll) :
    Visited now m.world poll.world := by
  unfold loadNode at hpoll
  split at hpoll
  · split at hpoll
    · cases hpoll
    · next hread =>
      have halike := progressNodeReadTask_alike hread
      split at hpoll
      · cases hpoll
        exact visited_finishLoad hs.placed halike hat hstate now
      · cases hpoll
        exact halike.visited now
  · cases hpoll
    exact visited_finishLoad hs.placed (.refl _) hat hstate now

theorem unloadNode_visited {m : State D} (hs : Sound t G m.world) {fresh : Nat} (now : Int)
    (hat : m.world.At s pos a n) (hstate : n.state = .unloading) {poll : Poll D}
    (hpoll : unloadNode t s fresh m.world a n = some poll) :
    Visited now m.world poll.world := by
  unfold unloadNode at hpoll
  split at hpoll
  · split at hpoll
    · cases hpoll
    · next hwrite =>
      have halike := progressNodeWriteTask_alike hwrite
      split at hpoll
      · cases hpoll
        exact visited_finishUnload hs.placed halike hat hstate now
      · cases hpoll
        exact halike.visited now
  · cases hpoll
    exact visited_finishUnload hs.placed (.refl _) hat hstate now

theorem Visited.setScale {v : World D} (h : Visited now w v) (s : Nat) {f : Scale → Scale}
    (hf : ∀ scale, (f scale).nodes = scale.nodes) : Visited now w (v.setScale s f) :=
  ⟨fun s' pos' => stamp_setScale v s hf ▸ h.stamp s' pos', h.unloading⟩

theorem nextLoad_visited {m : State D} (hs : Sound t G m.world) (fresh seed : Nat) (now : Int)
    (s it : Nat) : Visited now m.world (nextLoad t fresh seed m now s it).world := by
  unfold nextLoad
  split
  case isFalse => exact .refl ..
  case isTrue =>
  split
  case h_1 => exact .refl ..
  case h_2 pos hpos =>
  obtain ⟨a, n, hat, hstate⟩ := hs.loading hpos
  simp only [hat.find, hat.heap, hstate, if_true]
  cases hpoll : loadNode t s now fresh seed m.world a n with
  | none => exact .refl ..
  | some poll =>
    have hvisit := loadNode_visited hs hat hstate hpoll
    dsimp only
    split
    · show Visited now m.world (poll.world.eraseLoading s it)
      apply hvisit.setScale
      exact fun _ => rfl
    · exact hvisit

theorem nextUnload_visited {m : State D} (hs : Sound t G m.world) (fresh : Nat) (now : Int)
    (s it : Nat) : Visited now m.world (nextUnload t fresh m s it).world := by
  unfold nextUnload
  split
  case isFalse => exact .refl ..
  case isTrue =>
  split
  case h_1 => exact .refl ..
  case h_2 pos hpos =>
  obtain ⟨a, n, hat, hstate⟩ := hs.unloading hpos
  simp only [hat.find, hat.heap, hstate, if_true]
  cases hpoll : unloadNode t s fresh m.world a n with
  | none => exact .refl ..
  | some poll =>
    have hvisit := unloadNode_visited hs now hat hstate hpoll
    dsimp only
    split
    · show Visited now m.world (poll.world.eraseUnloading s it)
      apply hvisit.setScale
      exact fun _ => rfl
    · exact hvisit

/-- The time of the load callbacks that are running. -/
def Control.loadTime : Control → Option Int
  | .loading now _ _ => some now
  | _ => none

theorem next_visited {m m' : State D} (hs : Sound t G m.world) {fresh seed : Nat} {now : Int}
    (hnow : ∀ T, m.control.loadTime = some T → T = now)
    (h : step t m (.next fresh seed) = some m') : Visited now m.world m'.world := by
  simp only [step] at h
  split at h
  · split at h
    · next T s it hc =>
      cases h
      cases hnow T (by rw [hc]; rfl)
      exact nextLoad_visited hs fresh seed _ s it
    · cases h; exact nextUnload_visited hs fresh now _ _
    · cases h
  · cases h

theorem perform_alike {m m' : State D} {i : Nat} {outcome : Outcome}
    (h : step t m (.perform i outcome) = some m') : m.world.Alike m'.world := by
  simp only [step] at h
  split at h
  · split at h
    · cases h
      unfold perform
      split
      · exact .refl _
      · exact .of_heap rfl rfl rfl
    · cases h
  · cases h

theorem finish_alike {m m' : State D} {i : Nat} (h : step t m (.finish i) = some m') :
    m.world.Alike m'.world := by
  simp only [step] at h
  split at h
  · split at h
    · cases h
      unfold finish
      split
      · exact .refl _
      · exact .of_heap rfl rfl rfl
    · cases h
  · cases h

theorem editNode_alike {m m' : State D} {pos : Vector3i} {body : D}
    (h : step t m (.editNode s pos body) = some m') : m.world.Alike m'.world := by
  simp only [step] at h
  split at h
  · obtain ⟨a, -, rfl⟩ := Option.map_eq_some_iff.mp h
    exact .modify _ a fun _ => rfl
  · cases h

/-- Running load callbacks keep their time, and no step but a call starts new ones. -/
theorem loadTime_step {m m' : State D} {l : Label D} {T : Int}
    (hl : ∀ now, l ≠ .worldDoNodeLoadCommands now) (h : step t m l = some m')
    (hT : m'.control.loadTime = some T) : m.control.loadTime = some T := by
  cases l with
  | worldDoNodeLoadCommands now => exact absurd rfl (hl now)
  | next fresh seed =>
    simp only [step] at h
    split at h
    · split at h
      · next now s it hc =>
        cases h
        rw [hc]
        unfold nextLoad at hT
        repeat' split at hT
        all_goals first | exact hT | cases hT
      · cases h
        unfold nextUnload at hT
        repeat' split at hT
        all_goals cases hT
      · cases h
    · cases h
  | perform i outcome =>
    simp only [step] at h
    split at h
    · split at h
      · cases h
        unfold perform at hT
        split at hT
        · cases hT
        · exact hT
      · cases h
    · cases h
  | finish i =>
    simp only [step] at h
    split at h
    · split at h
      · cases h
        unfold finish at hT
        split at hT
        · cases hT
        · exact hT
      · cases h
    · cases h
  | touchNode =>
    simp only [step] at h
    split at h
    · split at h <;> (cases h; cases hT)
    · cases h
  | editNode =>
    simp only [step] at h
    split at h
    · obtain ⟨a, -, rfl⟩ := Option.map_eq_some_iff.mp h
      exact hT
    · cases h
  | worldDoNodeUnloadCommands =>
    simp only [step] at h
    split at h
    · cases h; cases hT
    · cases h
  | scaleUnloadUnutilizedNodes | unloadWorld =>
    simp only [step] at h
    split at h
    · cases h; exact hT
    · cases h

/-! ### The sweep of a scale -/

/-- What the sweep of scale `s` may do to the coordinate `pos'` of scale `s'`. -/
inductive Sweep (t : TypeData D) (w : World D) (s : Nat) (now : Int) (s' : Nat) :
    Option Stamp → Option Stamp → Prop
  | keep {x} : Sweep t w s now s' x x
  | mark {T} : s' = s → (w.unloading ∨ t.nodeKeepalive < now - T) →
      Sweep t w s now s' (some (.loaded, T)) (some (.unloading, T))

theorem unloadUnutilized_sweep (hw : Placed t w) (s : Nat) (now : Int) (pos : Vector3i)
    (s' : Nat) (pos' : Vector3i) : Sweep t w s now s' (w.stamp s' pos')
      ((unloadUnutilized t s now w pos).stamp s' pos') := by
  unfold unloadUnutilized
  split
  case h_2 => exact .keep
  case h_1 a hfind =>
  split
  case h_2 => exact .keep
  case h_1 n hheap =>
  split
  case isFalse => exact .keep
  case isTrue hold =>
  split
  case h_2 => exact .keep
  case h_1 hstate =>
  have hat : w.At s pos a n := ⟨hfind, hheap⟩
  have hmark : (w.mark s a n.position).stamp =
      (w.modify a fun n => { n with state := .unloading }).stamp := stamp_setScale _ _ fun _ => rfl
  show Sweep t w s now s' _ ((w.mark s a n.position).stamp s' pos')
  rw [hmark, stamp_modify hw hat]
  split
  · next heq =>
    rw [heq.1, heq.2, stamp_of_at hat, Node.stamp, hstate]
    exact .mark rfl hold
  · exact .keep

theorem unloading_unloadUnutilized (s : Nat) (now : Int) (pos : Vector3i) :
    (unloadUnutilized t s now w pos).unloading = w.unloading := by
  unfold unloadUnutilized
  repeat' split
  all_goals rfl

theorem scaleUnload_sweep (s : Nat) (now : Int) (s' : Nat) (pos' : Vector3i) :
    ∀ (order : List Vector3i) {w : World D}, Sound t G w →
      Sweep t w s now s' (w.stamp s' pos')
          ((scaleUnloadUnutilizedNodes t s now order w).stamp s' pos') ∧
        (scaleUnloadUnutilizedNodes t s now order w).unloading = w.unloading := by
  intro order
  induction order with
  | nil => exact fun _ => ⟨.keep, rfl⟩
  | cons pos order ih =>
    intro w hs
    have hone := unloadUnutilized_sweep hs.placed s now pos s' pos'
    have hun := unloading_unloadUnutilized (t := t) (w := w) s now pos
    have hs' : Sound t G (unloadUnutilized t s now w pos) :=
      effects_sound hs (unloadUnutilized_effects s now w pos [])
    obtain ⟨hrest, hun'⟩ := ih hs'
    refine ⟨?_, hun'.trans hun⟩
    show Sweep t w s now s' _ ((scaleUnloadUnutilizedNodes t s now order _).stamp s' pos')
    generalize (scaleUnloadUnutilizedNodes t s now order
      (unloadUnutilized t s now w pos)).stamp s' pos' = z at hrest
    generalize (unloadUnutilized t s now w pos).stamp s' pos' = y at hone hrest
    generalize w.stamp s' pos' = x at hone
    cases hrest with
    | keep => exact hone
    | mark hs hold =>
      cases hone with
      | keep => exact .mark hs (hun ▸ hold)

theorem at_of_stamp {x : Stamp} (h : w.stamp s pos = some x) :
    ∃ a n, w.At s pos a n ∧ n.stamp = x := by
  obtain ⟨a, ha, hn⟩ := Option.bind_eq_some_iff.mp h
  obtain ⟨n, hheap, hstamp⟩ := Option.map_eq_some_iff.mp hn
  exact ⟨a, n, ⟨Option.join_eq_some_iff.mp ha, hheap⟩, hstamp⟩

theorem unloadUnutilized_marks (hw : Placed t w) {now T : Int}
    (h : w.stamp s pos = some (.loaded, T)) (hold : w.unloading ∨ t.nodeKeepalive < now - T) :
    (unloadUnutilized t s now w pos).stamp s pos = some (.unloading, T) := by
  obtain ⟨a, n, hat, hstamp⟩ := at_of_stamp h
  have hstate : n.state = .loaded := congrArg Prod.fst hstamp
  have htime : n.lastUpdateTime = T := congrArg Prod.snd hstamp
  have hmark : (w.mark s a n.position).stamp =
      (w.modify a fun n => { n with state := .unloading }).stamp := stamp_setScale _ _ fun _ => rfl
  have heq : unloadUnutilized t s now w pos = w.mark s a n.position := by
    simp only [unloadUnutilized, hat.find, hat.heap, htime, if_pos hold, hstate]
    rfl
  rw [heq, hmark, stamp_modify hw hat, if_pos ⟨rfl, rfl⟩, ← htime]
  rfl

/-- The sweep of a scale misses no node. -/
theorem scaleUnload_marks {now T : Int} : ∀ (order : List Vector3i) {w : World D}, Sound t G w →
    pos ∈ order → w.stamp s pos = some (.loaded, T) →
    (w.unloading ∨ t.nodeKeepalive < now - T) →
    (scaleUnloadUnutilizedNodes t s now order w).stamp s pos = some (.unloading, T) := by
  intro order
  induction order with
  | nil => exact fun _ hmem => by cases hmem
  | cons p order ih =>
    intro w hs hmem hT hold
    have hs' : Sound t G (unloadUnutilized t s now w p) :=
      effects_sound hs (unloadUnutilized_effects s now w p [])
    have hun := unloading_unloadUnutilized (t := t) (w := w) s now p
    -- a marked node stays marked
    have hstay : (unloadUnutilized t s now w p).stamp s pos = some (.unloading, T) →
        (scaleUnloadUnutilizedNodes t s now (p :: order) w).stamp s pos =
          some (.unloading, T) := by
      intro hmarked
      have hrest := (scaleUnload_sweep (t := t) s now s pos order hs').1
      rw [hmarked] at hrest
      show (scaleUnloadUnutilizedNodes t s now order _).stamp s pos = _
      generalize (scaleUnloadUnutilizedNodes t s now order
        (unloadUnutilized t s now w p)).stamp s pos = y at hrest
      cases hrest with
      | keep => rfl
    by_cases hp : pos = p
    · subst hp
      exact hstay (unloadUnutilized_marks hs.placed hT hold)
    · have hone := unloadUnutilized_sweep hs.placed s now p s pos
      rw [hT] at hone
      generalize hy : (unloadUnutilized t s now w p).stamp s pos = y at hone
      cases hone with
      | keep => exact ih hs' ((List.mem_cons.mp hmem).resolve_left hp) hy (hun ▸ hold)
      | mark _ _ => exact hstay hy

/-! ### Touches -/

theorem stamp_create (hs : Sound t G w) (now : Int) (ha : w.heap a = none) (s' : Nat)
    (pos' : Vector3i) : (w.create t s pos now a).stamp s' pos' =
      if s' = s ∧ pos' = pos then some (.loading, now) else w.stamp s' pos' := by
  have hfind' : (w.create t s pos now a).find s' pos' =
      if s' = s ∧ pos' = pos then some (some a) else w.find s' pos' :=
    World.find_insertNode _ s' pos' fun _ => rfl
  have hheap : (w.create t s pos now a).heap =
      Function.update w.heap a (some (newNode t s pos now)) := rfl
  by_cases heq : s' = s ∧ pos' = pos
  · rw [if_pos heq] at hfind' ⊢
    simp only [World.stamp, hfind', hheap, Option.join_some, Option.bind_some,
      Function.update_self, Option.map_some]
    rfl
  · rw [if_neg heq] at hfind' ⊢
    simp only [World.stamp, hfind', hheap]
    cases hb : w.find s' pos' with
    | none => rfl
    | some v =>
      obtain ⟨b, n, rfl, hat⟩ := hs.find hb
      have hne : b ≠ a := by
        rintro rfl
        exact absurd (ha.symm.trans hat.heap) (by simp)
      simp only [Option.join_some, Option.bind_some, Function.update_of_ne hne]

theorem stamp_touchNode {m m' : State D} (hs : Sound t G m.world) {now : Int} {fresh : Nat}
    (h : step t m (.touchNode s pos now fresh) = some m') (s' : Nat) (pos' : Vector3i) :
    m'.world.stamp s' pos' =
      if s' = s ∧ pos' = pos then some (((m.world.stamp s pos).elim .loading Prod.fst), now)
      else m.world.stamp s' pos' := by
  obtain ⟨out, hout⟩ := Option.isSome_iff_exists.mp (touchNode_isSome hs s pos now fresh)
  simp only [step, hout] at h
  split at h
  case isFalse => cases h
  case isTrue hc =>
  cases h
  show out.1.stamp s' pos' = _
  have hfresh : m.world.heap fresh = none := by simpa using hc.2.2
  unfold touchNode at hout
  split at hout
  case h_2 => cases hout
  case h_1 hfind =>
    cases hout
    have hnone : m.world.stamp s pos = none := by simp only [World.stamp, hfind]; rfl
    rw [hnone]
    exact stamp_create hs now hfresh s' pos'
  case h_3 a hfind =>
    split at hout
    case isFalse => cases hout
    case isTrue hheap =>
    obtain ⟨n, hn⟩ := Option.isSome_iff_exists.mp hheap
    have hat : m.world.At s pos a n := ⟨hfind, hn⟩
    cases hout
    dsimp only
    rw [stamp_modify hs.placed hat, stamp_of_at hat]
    rfl

theorem touchNode_unloading {m m' : State D} {now : Int} {fresh : Nat}
    (h : step t m (.touchNode s pos now fresh) = some m') :
    m'.world.unloading = m.world.unloading := by
  simp only [step] at h
  split at h
  · split at h
    · cases h; rfl
    · next hout =>
      cases h
      unfold touchNode at hout
      split at hout
      · cases hout; rfl
      · cases hout
      · split at hout
        · cases hout; rfl
        · cases hout
  · cases h

/-- Touching a list of coordinates: they are stored afterwards, with the new time, and
nothing else has changed. -/
theorem touchNodes_stamp (db : NodeCoord → Option Bytes) {now : Int} (s' : Nat)
    (pos' : Vector3i) : ∀ {ps : List (Vector3i × Nat)} {m m' : State D},
      (worldMachine t db).Reachable m → touchNodes t s now ps m = some m' →
        m'.world.stamp s' pos' =
          (if s' = s ∧ pos' ∈ ps.map Prod.fst then
            some (((m.world.stamp s' pos').elim .loading Prod.fst), now)
          else m.world.stamp s' pos') ∧ m'.world.unloading = m.world.unloading := by
  intro ps
  induction ps with
  | nil =>
    intro m m' _ h
    cases Option.some.inj h
    simp
  | cons p ps ih =>
    intro m m' hr h
    obtain ⟨m₁, h₁, hrest⟩ := Option.bind_eq_some_iff.mp h
    have hone := stamp_touchNode (sound_of_reach (reach_any hr)) h₁ s' pos'
    obtain ⟨hmore, hun⟩ := ih (reachable_step hr h₁) hrest
    refine ⟨?_, hun.trans (touchNode_unloading h₁)⟩
    rw [hmore, hone]
    by_cases hs : s' = s
    · subst hs
      by_cases hp : pos' = p.1
      · subst hp
        simp
      · simp only [List.map_cons, List.mem_cons, hp, and_false, false_or, if_false]
    · simp only [hs, false_and, if_false]

end CosmicArchitect.Spatial3D
