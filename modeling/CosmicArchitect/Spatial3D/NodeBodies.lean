import CosmicArchitect.Spatial3D.Runs

/-!
# The components a world type adds to its nodes

A step writes the body of a node only when it creates the node, when the callbacks of a
finished read run, when the game edits the node, and when it destroys the node.
-/

namespace CosmicArchitect.Spatial3D
open Serialize

variable {D : Type} {t : TypeData D} {G : Guard} {m m' : State D} {w w' : World D}

def World.bodies (w : World D) (a : Nat) : Option D := (w.heap a).map (·.body)

/-- What a step other than an edit does to the bodies. -/
inductive BodyChange (t : TypeData D) (m m' : State D) (l : Label D) : Prop
  | same (h : m'.world.bodies = m.world.bodies)
  | created (a : Nat) (ha : m.world.heap a = none)
      (h : m'.world.bodies = Function.update m.world.bodies a (some t.newBody))
  | read (fresh seed a : Nat) (n : Node D) (io : IOTask) (hl : l = .next fresh seed)
      (ha : m.world.heap a = some n) (hpolled : polledLoad m = some n)
      (hstate : n.taskState = .readInProgress) (hio : taskOf m n = some io)
      (hfin : io.finished = true)
      (h : m'.world.bodies = Function.update m.world.bodies a
        (some (readBody t seed n.position n.toBody io).body))
  | destroyed (a : Nat) (n : Node D) (c : NodeCoord) (ha : m.world.heap a = some n)
      (htrace : m'.trace = .destroyed a c :: m.trace)
      (h : m'.world.bodies = Function.update m.world.bodies a none)

theorem bodies_of_core (h : w'.core = w.core) : w'.bodies = w.bodies := by
  have hcore : ∀ v : World D, v.core.bodies = v.bodies := by
    intro v
    funext a
    simp only [World.bodies, World.core, Option.map_map]
    rfl
  rw [← hcore w', h, hcore]

theorem bodies_modify (w : World D) (a : Nat) {f : Node D → Node D}
    (hf : ∀ n, (f n).body = n.body) : (w.modify a f).bodies = w.bodies := by
  funext b
  simp only [World.bodies, World.heap_modify]
  by_cases hb : b = a
  · subst hb
    rw [Function.update_self, Option.map_map]
    exact congrArg (Option.map · (w.heap b)) (funext hf)
  · rw [Function.update_of_ne hb]

theorem bodies_write {a : Nat} {n : Node D} (hn : w.heap a = some n) (f : Node D → Node D) :
    (w.modify a f).bodies = Function.update w.bodies a (some (f n).body) := by
  funext b
  simp only [World.bodies, World.heap_modify]
  by_cases hb : b = a
  · subst hb
    simp only [Function.update_self, hn, Option.map_some]
  · simp only [Function.update_of_ne hb]
    rfl

theorem bodies_finishLoad (s : Nat) (now : Int) (w : World D) (a : Nat) (pos : Vector3i) :
    (finishLoad t s now w a pos).bodies = w.bodies :=
  (bodies_of_core (core_finishLoad t s a pos now w)).trans (bodies_modify w a fun _ => rfl)

theorem bodies_destroyPoly (w : World D) (a : Nat) :
    (destroyPoly w a).bodies = Function.update w.bodies a none := by
  funext b
  simp only [World.bodies, heap_destroyPoly]
  by_cases hb : b = a
  · subst hb
    rw [Function.update_self, Function.update_self, Option.map_none]
  · rw [Function.update_of_ne hb, Function.update_of_ne hb]
    rfl

theorem bodies_finishUnload (s : Nat) (w : World D) (a : Nat) (pos : Vector3i) :
    (finishUnload t s w a pos).bodies = Function.update w.bodies a none := by
  have hunlink := bodies_of_core (core_unlinkNode t.maxScale w a s)
  have hmodify := bodies_modify (unlinkNode t.maxScale w a s) a
    (f := fun n =>
      { n with
        state := .invalid
        taskState := if t.localNode then .idle else n.taskState }) fun _ => rfl
  rw [finishUnload, bodies_destroyPoly]
  exact congrArg (Function.update · a none) (hmodify.trans hunlink)

theorem bodies_unloadUnutilized (s : Nat) (now : Int) (w : World D) (pos : Vector3i) :
    (unloadUnutilized t s now w pos).bodies = w.bodies := by
  unfold unloadUnutilized
  repeat' split
  all_goals first | rfl | exact bodies_modify w _ fun _ => rfl

theorem bodies_scaleUnload (s : Nat) (now : Int) (order : List Vector3i) :
    ∀ w : World D, (scaleUnloadUnutilizedNodes t s now order w).bodies = w.bodies := by
  induction order with
  | nil => exact fun w => rfl
  | cons pos order ih => exact fun w => (ih _).trans (bodies_unloadUnutilized s now w pos)

theorem nextLoad_bodies {fresh seed : Nat} {now : Int} {s it : Nat}
    (hc : m.control = .loading now s it) :
    BodyChange t m (nextLoad t fresh seed m now s it) (.next fresh seed) := by
  unfold nextLoad
  split
  case isFalse => exact .same rfl
  case isTrue =>
  split
  case h_1 => exact .same rfl
  case h_2 pos hpos =>
  split
  case h_2 => exact .same rfl
  case h_1 a hfind =>
  split
  case h_1 => exact .same rfl
  case h_2 n hn =>
  have hpolled : polledLoad m = some n := by
    simp only [polledLoad, hc, hpos, hfind, Option.bind_some, Option.join_some, hn]
  split
  case isFalse => exact .same rfl
  case isTrue =>
  unfold loadNode
  by_cases hlocal : t.localNode = true
  · rw [if_pos hlocal]
    unfold progressNodeReadTask
    cases htask : n.taskState with
    | idle =>
      cases hτ : n.task with
      | some τ => exact .same rfl
      | none => exact .same (bodies_modify (m.world.addNativeTask _ _ _) a fun _ => rfl)
    | readInProgress =>
      cases hτ : n.task with
      | none => exact .same rfl
      | some τ =>
        cases hio : m.world.tasks τ with
        | none => simp only [Option.bind_some, hio, Option.map_none]; exact .same rfl
        | some io =>
          have htaskOf : taskOf m n = some io := by simp only [taskOf, hτ, Option.bind_some, hio]
          simp only [Option.bind_some, hio, Option.map_some]
          by_cases hfin : io.finished = true
          · simp only [hfin, if_true, Bool.false_eq_true, if_false]
            refine .read fresh seed a n io rfl hn hpolled htask htaskOf hfin ?_
            refine (bodies_write (w := m.world.freeTask τ) hn _).trans ?_
            cases hst : io.status <;> simp only [readBody, hst] <;> rfl
          · simp only [hfin, Bool.false_eq_true, if_false, if_true]
            exact .same (bodies_finishLoad ..)
    | readDone => exact .same (bodies_finishLoad ..)
    | writeInProgress => exact .same rfl
    | writeDone => exact .same rfl
  · rw [if_neg hlocal]
    exact .same (bodies_finishLoad ..)

theorem nextUnload_bodies {fresh : Nat} (seed : Nat) (s it : Nat) :
    BodyChange t m (nextUnload t fresh m s it) (.next fresh seed) := by
  unfold nextUnload
  split
  case isFalse => exact .same rfl
  case isTrue =>
  split
  case h_1 => exact .same rfl
  case h_2 pos hpos =>
  split
  case h_2 => exact .same rfl
  case h_1 a hfind =>
  split
  case h_1 => exact .same rfl
  case h_2 n hn =>
  split
  case isFalse => exact .same rfl
  case isTrue =>
  unfold unloadNode
  by_cases hlocal : t.localNode = true
  · rw [if_pos hlocal]
    unfold progressNodeWriteTask
    cases htask : n.taskState with
    | idle =>
      cases hτ : n.task with
      | some τ => exact .same rfl
      | none => exact .same (bodies_modify (m.world.addNativeTask _ _ _) a fun _ => rfl)
    | writeInProgress =>
      cases hτ : n.task with
      | none => exact .same rfl
      | some τ =>
        cases hio : m.world.tasks τ with
        | none => simp only [Option.bind_some, hio, Option.map_none]; exact .same rfl
        | some io =>
          simp only [Option.bind_some, hio, Option.map_some]
          by_cases hfin : io.finished = true
          · simp only [hfin, if_true]
            have hwrite : (m.world.finishWrite a τ).bodies = m.world.bodies :=
              bodies_modify (m.world.freeTask τ) a fun _ => rfl
            have hunload := bodies_finishUnload (t := t) s (m.world.finishWrite a τ) a n.position
            rw [hwrite] at hunload
            exact .destroyed a n _ hn rfl hunload
          · simp only [hfin, Bool.false_eq_true, if_false]
            exact .same rfl
    | writeDone => exact .destroyed a n _ hn rfl (bodies_finishUnload ..)
    | readInProgress => exact .same rfl
    | readDone => exact .same rfl
  · rw [if_neg hlocal]
    exact .destroyed a n _ hn rfl (bodies_finishUnload ..)

theorem step_bodies {l : Label D} (hl : ∀ s pos body, l ≠ .editNode s pos body)
    (h : step t m l = some m') : BodyChange t m m' l := by
  cases l with
  | touchNode s pos now fresh =>
    simp only [step] at h
    split at h
    · next hc =>
      have hfresh : m.world.heap fresh = none := by simpa using hc.2.2
      split at h
      · cases h; exact .same rfl
      · next w events htouch =>
        cases h
        unfold touchNode at htouch
        split at htouch
        · cases htouch
          refine .created fresh hfresh ?_
          funext b
          by_cases hb : b = fresh
          · subst hb
            simp [World.bodies, State.record, Function.update_self, newNode]
          · simp [World.bodies, State.record, Function.update_of_ne hb]
        · cases htouch
        · split at htouch
          · cases htouch; exact .same (bodies_modify _ _ fun _ => rfl)
          · cases htouch
    · cases h
  | editNode s pos body => exact absurd rfl (hl s pos body)
  | scaleUnloadUnutilizedNodes s now order =>
    simp only [step] at h
    split at h
    · cases h; exact .same (bodies_scaleUnload ..)
    · cases h
  | unloadWorld =>
    simp only [step] at h
    split at h
    · cases h; exact .same rfl
    · cases h
  | worldDoNodeLoadCommands now =>
    simp only [step] at h
    split at h
    · cases h; exact .same rfl
    · cases h
  | worldDoNodeUnloadCommands =>
    simp only [step] at h
    split at h
    · cases h; exact .same rfl
    · cases h
  | next fresh seed =>
    simp only [step] at h
    split at h
    · split at h
      · next now s it hc => cases h; exact nextLoad_bodies hc
      · next s it hc => cases h; exact nextUnload_bodies seed s it
      · cases h
    · cases h
  | perform i outcome =>
    simp only [step] at h
    split at h
    · split at h
      · cases h
        unfold perform
        split <;> exact .same rfl
      · cases h
    · cases h
  | finish i =>
    simp only [step] at h
    split at h
    · split at h
      · cases h
        unfold finish
        split <;> exact .same rfl
      · cases h
    · cases h

end CosmicArchitect.Spatial3D
