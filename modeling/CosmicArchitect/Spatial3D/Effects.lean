import CosmicArchitect.Spatial3D.Machine

/-!
# What one step does

`Effect` lists, guards included, everything a step of the machine can do to the world and
its history. `step_effects` is the inversion lemma of `step`; every invariant below is
proved for effects, never for `step` again.

A `Guard` says which of the four critical events a run contains. An effect that shows one
of them carries the corresponding permission.
-/

namespace CosmicArchitect.Spatial3D
open Serialize Relation

variable {D : Type}

/-- The node the running load command polls next. -/
def polledLoad (m : State D) : Option (Node D) :=
  match m.control with
  | .loading _ s it =>
    (m.world.scales s).loadingNodes[it]?.bind fun pos => (m.world.find s pos).join.bind m.world.heap
  | _ => none

/-- The node the running unload command polls next. -/
def polledUnload (m : State D) : Option (Node D) :=
  match m.control with
  | .unloading s it =>
    (m.world.scales s).unloadingNodes[it]?.bind fun pos =>
      (m.world.find s pos).join.bind m.world.heap
  | _ => none

def taskOf (m : State D) (n : Node D) : Option IOTask := n.task.bind m.world.tasks

/-- The polled node is in task state `ts` and its task satisfies `P`. -/
def Polls (m : State D) (polled : Option (Node D)) (ts : TaskState) (P : IOTask → Prop) : Prop :=
  ∃ n io, polled = some n ∧ n.taskState = ts ∧ taskOf m n = some io ∧ P io

instance (m : State D) (polled : Option (Node D)) (ts : TaskState) (P : IOTask → Prop)
    [DecidablePred P] : Decidable (Polls m polled ts P) :=
  decidable_of_iff
    (polled.any fun n => decide (n.taskState = ts) && (taskOf m n).any fun io => decide (P io))
    (by simp [Polls, Option.any_eq_true])

/-- The step polls a node whose read has not finished. -/
def PollsUnfinishedRead (m : State D) : Label D → Prop
  | .next _ _ => Polls m (polledLoad m) .readInProgress fun io => io.finished = false
  | _ => False

/-- The step sees a read that ended with an error other than NOT_FOUND. -/
def SeesFailedRead (m : State D) : Label D → Prop
  | .next _ _ => Polls m (polledLoad m) .readInProgress fun io => io.finished = true ∧
      io.status ≠ .success ∧ io.status ≠ .notFoundError
  | _ => False

/-- The step sees a write that did not succeed. -/
def SeesFailedWrite (m : State D) : Label D → Prop
  | .next _ _ => Polls m (polledUnload m) .writeInProgress fun io =>
      io.finished = true ∧ io.status ≠ .success
  | _ => False

instance (m : State D) (l : Label D) : Decidable (PollsUnfinishedRead m l) := by
  cases l <;> unfold PollsUnfinishedRead <;> infer_instance

instance (m : State D) (l : Label D) : Decidable (SeesFailedRead m l) := by
  cases l <;> unfold SeesFailedRead <;> infer_instance

instance (m : State D) (l : Label D) : Decidable (SeesFailedWrite m l) := by
  cases l <;> unfold SeesFailedWrite <;> infer_instance

/-- The step is a database call that ends with an error of the store. -/
def StoreFails : Label D → Prop
  | .perform _ (.error _) => True
  | _ => False

instance (l : Label D) : Decidable (StoreFails l) := by
  cases l with
  | perform _ outcome => cases outcome <;> unfold StoreFails <;> infer_instance
  | _ => unfold StoreFails; infer_instance

structure Guard where
  unfinishedRead : Prop
  failedRead : Prop
  failedWrite : Prop
  storeError : Prop

/-- The guard admits the critical events of the step. -/
structure Guard.Admits (G : Guard) (m : State D) (l : Label D) : Prop where
  unfinishedRead : PollsUnfinishedRead m l → G.unfinishedRead
  failedRead : SeesFailedRead m l → G.failedRead
  failedWrite : SeesFailedWrite m l → G.failedWrite
  storeError : StoreFails l → G.storeError

/-- The node `n` at address `a` is stored at position `pos` of scale `s`. -/
structure World.At (w : World D) (s : Nat) (pos : Vector3i) (a : Nat) (n : Node D) : Prop where
  find : w.find s pos = some (some a)
  heap : w.heap a = some n

/-- Drop the load command at index `it` of scale `s`. -/
def World.eraseLoading (w : World D) (s it : Nat) : World D :=
  w.setScale s fun scale => { scale with loadingNodes := scale.loadingNodes.eraseIdx it }

def World.eraseUnloading (w : World D) (s it : Nat) : World D :=
  w.setScale s fun scale => { scale with unloadingNodes := scale.unloadingNodes.eraseIdx it }

/-- The world after a node was created (`TouchNode`). -/
def World.create (t : TypeData D) (w : World D) (s : Nat) (pos : Vector3i) (now : Int)
    (a : Nat) : World D :=
  ({ w with heap := Function.update w.heap a (some (newNode t s pos now)) }).setScale s
    fun scale => { scale with
      nodes := scale.nodes.insert pos (some a), loadingNodes := scale.loadingNodes ++ [pos] }

/-- The world after a node was marked for unloading. -/
def World.mark (w : World D) (s : Nat) (a : Nat) (pos : Vector3i) : World D :=
  (w.modify a fun n => { n with state := .unloading }).setScale s
    fun scale => { scale with unloadingNodes := scale.unloadingNodes ++ [pos] }

/-- The world after a read was handed to the pool. -/
def World.startRead (w : World D) (a : Nat) (n : Node D) (τ : Nat) : World D :=
  (w.addNativeTask .read τ { coord := ⟨n.position, n.scaleIndex⟩ }).modify a
    fun n => { n with task := some τ, taskState := .readInProgress }

/-- What the callbacks make of a finished read. -/
def readBody (t : TypeData D) (seed : Nat) (pos : Vector3i) (b : NodeBody D) (io : IOTask) :
    NodeBody D :=
  match io.status with
  | .success => t.deserializeAll pos io.data b
  | .notFoundError => t.generateAll seed pos b
  | _ => b

def readEvents (t : TypeData D) (a : Nat) (c : NodeCoord) (io : IOTask) : List Event :=
  match io.status with
  | .success => t.deserializeEvents a c io.data
  | .notFoundError => t.generateEvents a c
  | _ => []

/-- The world after the callbacks of a finished read ran. -/
def World.finishRead (w : World D) (a τ : Nat) (b : NodeBody D) : World D :=
  (w.freeTask τ).modify a
    fun n => { n.withBody b with taskState := .readDone, task := none }

/-- The world after a node was serialized and its write handed to the pool. -/
def World.startWrite (t : TypeData D) (w : World D) (a : Nat) (n : Node D) (τ : Nat) :
    World D :=
  (w.addNativeTask .write τ
      { coord := ⟨n.position, n.scaleIndex⟩, data := t.serializeAll n.position n.toBody }).modify a
    fun n => { n with task := some τ, taskState := .writeInProgress }

/-- The world after the owner saw that a write finished. -/
def World.finishWrite (w : World D) (a τ : Nat) : World D :=
  (w.freeTask τ).modify a fun n => { n with taskState := .writeDone, task := none }

/-- The world after the entry `e` at index `i` of the pool made its database call. -/
def World.performed (w : World D) (i : Nat) (e : PoolTask) (database : NodeCoord → Option Bytes)
    (io : IOTask) : World D :=
  { w with database := database
           tasks := Function.update w.tasks e.task (some io)
           pool := w.pool.set i { e with performed := true } }

/-- The world after the entry `e` at index `i` of the pool set `finished`. -/
def World.finished (w : World D) (i : Nat) (e : PoolTask) (io : IOTask) : World D :=
  { w with tasks := Function.update w.tasks e.task (some { io with finished := true })
           pool := w.pool.eraseIdx i }

/-- Everything one step can do. -/
inductive Effect (t : TypeData D) (G : Guard) :
    World D × List Event → World D × List Event → Prop
  | touch {w tr s pos a n} (now : Int) : w.At s pos a n →
      Effect t G (w, tr) (w.modify a fun n => { n with lastUpdateTime := now }, tr)
  | edit {w tr s pos a n} (body : D) : w.At s pos a n →
      Effect t G (w, tr) (w.modify a fun n => { n with body := body }, tr)
  | create {w tr s pos a} (now : Int) : s < t.maxScale → w.find s pos = none →
      w.heap a = none →
      Effect t G (w, tr) (w.create t s pos now a, .created a ⟨pos, s⟩ :: tr)
  | mark {w tr s pos a n} : w.At s pos a n → n.state = .loaded →
      Effect t G (w, tr) (w.mark s a n.position, tr)
  | unloadWorld {w tr} : Effect t G (w, tr) ({ w with unloading := true }, tr)
  | startRead {w tr s pos a n τ} : w.At s pos a n → n.state = .loading → t.localNode = true →
      n.taskState = .idle → n.task = none → w.tasks τ = none →
      Effect t G (w, tr) (w.startRead a n τ, .readStarted a τ :: tr)
  | finishRead {w tr s pos a n τ io} (seed : Nat) : w.At s pos a n → n.state = .loading →
      t.localNode = true → n.taskState = .readInProgress → n.task = some τ →
      w.tasks τ = some io → io.finished = true →
      (io.status ≠ .success → io.status ≠ .notFoundError → G.failedRead) →
      Effect t G (w, tr) (w.finishRead a τ (readBody t seed n.position n.toBody io),
        (readEvents t a ⟨n.position, s⟩ io).reverse ++ tr)
  | load {w tr s it pos a n} (now : Int) : s < t.maxScale →
      (w.scales s).loadingNodes[it]? = some pos → w.At s pos a n → n.state = .loading →
      (t.localNode = true → n.taskState = .readDone ∨ (n.taskState = .readInProgress ∧
        G.unfinishedRead ∧ ∃ τ io, n.task = some τ ∧ w.tasks τ = some io ∧ io.finished = false)) →
      Effect t G (w, tr) ((finishLoad t s now w a n.position).eraseLoading s it, .loaded a :: tr)
  | startWrite {w tr s pos a n τ} : w.At s pos a n → n.state = .unloading →
      t.localNode = true → n.taskState = .idle → n.task = none → w.tasks τ = none →
      Effect t G (w, tr) (w.startWrite t a n τ,
        .serialized a ⟨n.position, s⟩ (t.serializeAll n.position n.toBody) :: tr)
  | destroy {w tr s it pos a n} : s < t.maxScale →
      (w.scales s).unloadingNodes[it]? = some pos → w.At s pos a n → n.state = .unloading →
      (t.localNode = true → n.taskState = .writeDone) →
      Effect t G (w, tr) ((finishUnload t s w a n.position).eraseUnloading s it,
        .destroyed a ⟨n.position, s⟩ :: tr)
  | destroyWritten {w tr s it pos a n τ io} : s < t.maxScale →
      (w.scales s).unloadingNodes[it]? = some pos → w.At s pos a n → n.state = .unloading →
      t.localNode = true → n.taskState = .writeInProgress → n.task = some τ →
      w.tasks τ = some io → io.finished = true → (io.status ≠ .success → G.failedWrite) →
      Effect t G (w, tr) ((finishUnload t s (w.finishWrite a τ) a n.position).eraseUnloading s it,
        .destroyed a ⟨n.position, s⟩ :: tr)
  | performRead {w tr i e io} (outcome : Outcome) : w.pool[i]? = some e → e.performed = false →
      e.kind = .read → w.tasks e.task = some io → outcome.Legal →
      (outcome ≠ .ok → G.storeError) →
      Effect t G (w, tr) (w.performed i e w.database (nodeReadIOTask w.database io outcome), tr)
  | performWrite {w tr i e io} (outcome : Outcome) : w.pool[i]? = some e → e.performed = false →
      e.kind = .write → w.tasks e.task = some io → outcome.Legal →
      (outcome ≠ .ok → G.storeError) →
      Effect t G (w, tr)
        (w.performed i e (nodeWriteIOTask w.database io outcome).1
            (nodeWriteIOTask w.database io outcome).2.1,
          (nodeWriteIOTask w.database io outcome).2.2 ++ tr)
  | finish {w tr i e io} : w.pool[i]? = some e → e.performed = true →
      w.tasks e.task = some io →
      Effect t G (w, tr) (w.finished i e io, .finished e.task io.status io.data :: tr)

/-- The world and history of a state. -/
def State.config (m : State D) : World D × List Event := (m.world, m.trace)

def State.Failed (m : State D) : Prop := ∃ f, m.control = .fault f

variable {t : TypeData D} {G : Guard} {m m' : State D}

/-- The effects of a step, in order; only `ScaleUnloadUnutilizedNodes` has more than one. -/
abbrev Effects (t : TypeData D) (G : Guard) :
    World D × List Event → World D × List Event → Prop :=
  ReflTransGen (Effect t G)

theorem touchNode_effect {s : Nat} {pos : Vector3i} {now : Int} {fresh : Nat} {w w' : World D}
    {events : List Event} (tr : List Event) (hs : s < t.maxScale) (hfresh : w.heap fresh = none)
    (h : touchNode t s pos now fresh w = some (w', events)) :
    Effect t G (w, tr) (w', events.reverse ++ tr) := by
  unfold touchNode at h
  split at h
  · next hfind =>
    cases h
    exact .create now hs hfind hfresh
  · cases h
  · next a hfind =>
    split at h
    · next hheap =>
      obtain ⟨n, hn⟩ := Option.isSome_iff_exists.mp hheap
      cases h
      exact .touch now ⟨hfind, hn⟩
    · cases h

theorem unloadUnutilized_effects (s : Nat) (now : Int) (w : World D) (pos : Vector3i)
    (tr : List Event) : Effects t G (w, tr) (unloadUnutilized t s now w pos, tr) := by
  unfold unloadUnutilized
  split
  · next a hfind =>
    split
    · next n hn =>
      split
      · split
        · next hstate => exact .single (.mark ⟨hfind, hn⟩ hstate)
        · exact .refl
      · exact .refl
    · exact .refl
  · exact .refl

theorem scaleUnload_effects (s : Nat) (now : Int) (order : List Vector3i) (tr : List Event) :
    ∀ w : World D, Effects t G (w, tr) (scaleUnloadUnutilizedNodes t s now order w, tr) := by
  induction order with
  | nil => intro w; exact .refl
  | cons pos order ih =>
    intro w
    exact (unloadUnutilized_effects s now w pos tr).trans (ih _)

theorem nextLoad_effects {fresh seed : Nat} {now : Int} {s it : Nat}
    (hfresh : m.world.tasks fresh = none) (hc : m.control = .loading now s it)
    (hG : G.Admits m (.next fresh seed)) :
    Effects t G m.config (nextLoad t fresh seed m now s it).config := by
  unfold nextLoad
  split
  case isFalse => exact .refl
  case isTrue hs =>
  split
  case h_1 => exact .refl
  case h_2 pos hpos =>
  split
  case h_2 => exact .refl
  case h_1 a hfind =>
  split
  case h_1 => exact .refl
  case h_2 n hn =>
  have hat : m.world.At s pos a n := ⟨hfind, hn⟩
  have hpolled : polledLoad m = some n := by
    simp only [polledLoad, hc, hpos, hfind, Option.bind_some, Option.join_some, hn]
  split
  case isFalse => exact .refl
  case isTrue hstate =>
  unfold loadNode
  by_cases hlocal : t.localNode = true
  · rw [if_pos hlocal]
    unfold progressNodeReadTask
    cases htask : n.taskState with
    | idle =>
      cases hτ : n.task with
      | some τ => exact .refl
      | none => exact .single (.startRead hat hstate hlocal htask hτ hfresh)
    | readInProgress =>
      cases hτ : n.task with
      | none => exact .refl
      | some τ =>
        cases hio : m.world.tasks τ with
        | none => simp only [Option.bind_some, hio, Option.map_none]; exact .refl
        | some io =>
          have htaskOf : taskOf m n = some io := by simp only [taskOf, hτ, Option.bind_some, hio]
          simp only [Option.bind_some, hio, Option.map_some]
          by_cases hfin : io.finished = true
          · simp only [hfin, if_true, Bool.false_eq_true, if_false]
            have hbad : io.status ≠ .success → io.status ≠ .notFoundError → G.failedRead :=
              fun h1 h2 => hG.failedRead ⟨n, io, hpolled, htask, htaskOf, hfin, h1, h2⟩
            have he : Effect t G (m.world, m.trace) _ :=
              .finishRead seed hat hstate hlocal htask hτ hio hfin hbad
            refine .single ?_
            cases hst : io.status <;> simp only [readBody, readEvents, hst] at he <;> exact he
          · simp only [hfin, Bool.false_eq_true, if_false, if_true]
            have hearly : G.unfinishedRead := hG.unfinishedRead
              ⟨n, io, hpolled, htask, htaskOf, by simpa using hfin⟩
            exact .single (.load now hs hpos hat hstate fun _ =>
              Or.inr ⟨htask, hearly, τ, io, hτ, hio, by simpa using hfin⟩)
    | readDone => exact .single (.load now hs hpos hat hstate fun _ => Or.inl htask)
    | writeInProgress => exact .refl
    | writeDone => exact .refl
  · rw [if_neg hlocal]
    exact .single (.load now hs hpos hat hstate fun h => absurd h hlocal)

theorem nextUnload_effects {fresh : Nat} (seed : Nat) {s it : Nat}
    (hfresh : m.world.tasks fresh = none) (hc : m.control = .unloading s it)
    (hG : G.Admits m (.next fresh seed)) :
    Effects t G m.config (nextUnload t fresh m s it).config := by
  unfold nextUnload
  split
  case isFalse => exact .refl
  case isTrue hs =>
  split
  case h_1 => exact .refl
  case h_2 pos hpos =>
  split
  case h_2 => exact .refl
  case h_1 a hfind =>
  split
  case h_1 => exact .refl
  case h_2 n hn =>
  have hat : m.world.At s pos a n := ⟨hfind, hn⟩
  have hpolled : polledUnload m = some n := by
    simp only [polledUnload, hc, hpos, hfind, Option.bind_some, Option.join_some, hn]
  split
  case isFalse => exact .refl
  case isTrue hstate =>
  unfold unloadNode
  by_cases hlocal : t.localNode = true
  · rw [if_pos hlocal]
    unfold progressNodeWriteTask
    cases htask : n.taskState with
    | idle =>
      cases hτ : n.task with
      | some τ => exact .refl
      | none => exact .single (.startWrite hat hstate hlocal htask hτ hfresh)
    | writeInProgress =>
      cases hτ : n.task with
      | none => exact .refl
      | some τ =>
        cases hio : m.world.tasks τ with
        | none => simp only [Option.bind_some, hio, Option.map_none]; exact .refl
        | some io =>
          have htaskOf : taskOf m n = some io := by simp only [taskOf, hτ, Option.bind_some, hio]
          simp only [Option.bind_some, hio, Option.map_some]
          by_cases hfin : io.finished = true
          · simp only [hfin, if_true]
            have hbad : io.status ≠ .success → G.failedWrite :=
              fun h1 => hG.failedWrite ⟨n, io, hpolled, htask, htaskOf, hfin, h1⟩
            exact .single (.destroyWritten hs hpos hat hstate hlocal htask hτ hio hfin hbad)
          · simp only [hfin, Bool.false_eq_true, if_false]
            exact .refl
    | writeDone => exact .single (.destroy hs hpos hat hstate fun _ => htask)
    | readInProgress => exact .refl
    | readDone => exact .refl
  · rw [if_neg hlocal]
    exact .single (.destroy hs hpos hat hstate fun h => absurd h hlocal)

theorem perform_effects {i : Nat} {e : PoolTask} {outcome : Outcome}
    (he : m.world.pool[i]? = some e) (hp : e.performed = false) (hlegal : outcome.Legal)
    (hG : G.Admits m (.perform i outcome)) :
    Effects t G m.config (perform m i e outcome).config := by
  have herr : outcome ≠ .ok → G.storeError := by
    intro hne
    cases outcome with
    | ok => exact absurd rfl hne
    | error status => exact hG.storeError trivial
  obtain ⟨kind, τ, performed⟩ := e
  unfold perform
  simp only
  cases hio : m.world.tasks τ with
  | none => exact .refl
  | some io =>
    cases kind with
    | read => exact .single (.performRead outcome he hp rfl hio hlegal herr)
    | write =>
      have hev : ∀ l : List Event, l = (nodeWriteIOTask m.world.database io outcome).2.2 →
          l.reverse = l := by
        intro l hl
        cases outcome <;> simp only [nodeWriteIOTask] at hl <;> subst hl <;> rfl
      have hw : Effect t G (m.world, m.trace) _ :=
        .performWrite outcome he hp rfl hio hlegal herr
      rw [← hev _ rfl] at hw
      exact .single hw

theorem finish_effects {i : Nat} {e : PoolTask} (he : m.world.pool[i]? = some e)
    (hp : e.performed = true) : Effects t G m.config (finish m i e).config := by
  unfold finish
  cases hio : m.world.tasks e.task with
  | none => exact .refl
  | some io => exact .single (.finish he hp hio)

/-- Every step is made of effects its guard admits. -/
theorem step_effects {l : Label D} (h : step t m l = some m')
    (hG : G.Admits m l) : Effects t G m.config m'.config := by
  cases l with
  | touchNode s pos now fresh =>
    simp only [step] at h
    split at h
    · next hc =>
      have hfresh : m.world.heap fresh = none := by simpa using hc.2.2
      split at h
      · cases h; exact .refl
      · next w events ht =>
        cases h
        exact .single (touchNode_effect m.trace hc.2.1 hfresh ht)
    · cases h
  | editNode s pos body =>
    simp only [step] at h
    split at h
    · obtain ⟨a, ha, rfl⟩ := Option.map_eq_some_iff.mp h
      have hfind : m.world.find s pos = some (some a) := Option.join_eq_some_iff.mp ha
      cases hn : m.world.heap a with
      | some n => exact .single (.edit body ⟨hfind, hn⟩)
      | none =>
        have hsame : m.world.modify a (fun n => { n with body := body }) = m.world := by
          simp only [World.modify, hn, Option.map_none]
          rw [← hn, Function.update_eq_self]
        simp only [State.config, hsame]
        exact .refl
    · cases h
  | scaleUnloadUnutilizedNodes s now order =>
    simp only [step] at h
    split at h
    · cases h; exact scaleUnload_effects s now order m.trace m.world
    · cases h
  | unloadWorld =>
    simp only [step] at h
    split at h
    · cases h; exact .single .unloadWorld
    · cases h
  | worldDoNodeLoadCommands now =>
    simp only [step] at h
    split at h
    · cases h; exact .refl
    · cases h
  | worldDoNodeUnloadCommands =>
    simp only [step] at h
    split at h
    · cases h; exact .refl
    · cases h
  | next fresh seed =>
    simp only [step] at h
    split at h
    · next hfresh =>
      have hfresh : m.world.tasks fresh = none := by simpa using hfresh
      split at h
      · next now s it hc => cases h; exact nextLoad_effects hfresh hc hG
      · next s it hc => cases h; exact nextUnload_effects seed hfresh hc hG
      · cases h
    · cases h
  | perform i outcome =>
    simp only [step] at h
    split at h
    · next e he =>
      split at h
      · next hc =>
        cases h
        exact perform_effects he (by simpa using hc.1) hc.2 hG
      · cases h
    · cases h
  | finish i =>
    simp only [step] at h
    split at h
    · next e he =>
      split at h
      · next hp => cases h; exact finish_effects he hp
      · cases h
    · cases h

end CosmicArchitect.Spatial3D
