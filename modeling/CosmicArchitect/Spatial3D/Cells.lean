import CosmicArchitect.Spatial3D.Runs

/-!
# The life of a coordinate

The abstract model of a local world: every coordinate is vacant or holds one node, and a
node goes through creation, read, load, write and destruction while its coordinate stays
occupied. Maps, command lists and links are gone. `effect_move` connects it to the model of
the source: every effect is one move of one coordinate or is not visible.
-/

namespace CosmicArchitect.Spatial3D
open Serialize

variable {D : Type}

/-- The node of a coordinate. -/
structure Cell (D : Type) where
  addr : Nat
  state : NodeState
  taskState : TaskState
  task : Option Nat
  body : NodeBody D

structure Cells (D : Type) where
  cell : NodeCoord → Option (Cell D)
  tasks : Nat → Option IOTask
  pool : List PoolTask
  database : NodeCoord → Option Bytes
  trace : List Event

def Cell.hold (k : Cell D) : Hold := ⟨k.state, k.taskState, k.task⟩

namespace Cells

def put (x : Cells D) (c : NodeCoord) (k : Option (Cell D)) : Cells D :=
  { x with cell := Function.update x.cell c k }

def log (x : Cells D) (events : List Event) : Cells D := { x with trace := events ++ x.trace }

def addTask (x : Cells D) (kind : IOKind) (τ : Nat) (io : IOTask) : Cells D :=
  { x with tasks := Function.update x.tasks τ (some io), pool := x.pool ++ [⟨kind, τ, false⟩] }

def freeTask (x : Cells D) (τ : Nat) : Cells D :=
  { x with tasks := Function.update x.tasks τ none }

def performed (x : Cells D) (i : Nat) (e : PoolTask) (database : NodeCoord → Option Bytes)
    (io : IOTask) : Cells D :=
  { x with database := database
           tasks := Function.update x.tasks e.task (some io)
           pool := x.pool.set i { e with performed := true } }

def finished (x : Cells D) (i : Nat) (e : PoolTask) (io : IOTask) : Cells D :=
  { x with tasks := Function.update x.tasks e.task (some { io with finished := true })
           pool := x.pool.eraseIdx i }

end Cells

/- The moves of a local world. Each names the coordinate or the background task it is about,
   and carries the guards of the call that makes it. -/
inductive Move (t : TypeData D) (G : Guard) : Cells D → Cells D → Prop
  | edit {x c k} (body : D) : x.cell c = some k →
      Move t G x (x.put c (some { k with body := ⟨k.body.scaleIndex, body⟩ }))
  | create {x c a} : c.scaleIndex < t.maxScale → x.cell c = none →
      (∀ d k, x.cell d = some k → k.addr ≠ a) →
      Move t G x ((x.put c (some ⟨a, .loading, .idle, none, ⟨c.scaleIndex, t.newBody⟩⟩)).log
        [.created a c])
  | mark {x c k} : x.cell c = some k → k.state = .loaded →
      Move t G x (x.put c (some { k with state := .unloading }))
  | startRead {x c k τ} : x.cell c = some k → k.state = .loading → k.taskState = .idle →
      k.task = none → x.tasks τ = none →
      Move t G x (((x.addTask .read τ { coord := ⟨c.position, k.body.scaleIndex⟩ }).put c
        (some { k with taskState := .readInProgress, task := some τ })).log
        [.readStarted k.addr τ])
  | finishRead {x c k τ io} (seed : Nat) : x.cell c = some k → k.state = .loading →
      k.taskState = .readInProgress → k.task = some τ → x.tasks τ = some io →
      io.finished = true → (io.status ≠ .success → io.status ≠ .notFoundError → G.failedRead) →
      Move t G x (((x.freeTask τ).put c (some { k with
          body := readBody t seed c.position k.body io, taskState := .readDone, task := none })).log
        (readEvents t k.addr c io).reverse)
  | load {x c k} : x.cell c = some k → k.state = .loading →
      (k.taskState = .readDone ∨ (k.taskState = .readInProgress ∧ G.unfinishedRead ∧
        ∃ τ, k.task = some τ)) →
      Move t G x ((x.put c (some { k with state := .loaded, taskState := .idle })).log
        [.loaded k.addr])
  | startWrite {x c k τ} : x.cell c = some k → k.state = .unloading → k.taskState = .idle →
      k.task = none → x.tasks τ = none →
      Move t G x (((x.addTask .write τ { coord := ⟨c.position, k.body.scaleIndex⟩
                                         data := t.serializeAll c.position k.body }).put c
        (some { k with taskState := .writeInProgress, task := some τ })).log
        [.serialized k.addr c (t.serializeAll c.position k.body)])
  | destroy {x c k} : x.cell c = some k → k.state = .unloading → k.taskState = .writeDone →
      Move t G x ((x.put c none).log [.destroyed k.addr c])
  | destroyWritten {x c k τ io} : x.cell c = some k → k.state = .unloading →
      k.taskState = .writeInProgress → k.task = some τ → x.tasks τ = some io →
      io.finished = true → (io.status ≠ .success → G.failedWrite) →
      Move t G x (((x.freeTask τ).put c none).log [.destroyed k.addr c])
  | performRead {x i e io} (outcome : Outcome) : x.pool[i]? = some e → e.performed = false →
      e.kind = .read → x.tasks e.task = some io → outcome.Legal →
      (outcome ≠ .ok → G.storeError) →
      Move t G x (x.performed i e x.database (nodeReadIOTask x.database io outcome))
  | performWrite {x i e io} (outcome : Outcome) : x.pool[i]? = some e → e.performed = false →
      e.kind = .write → x.tasks e.task = some io → outcome.Legal →
      (outcome ≠ .ok → G.storeError) →
      Move t G x ((x.performed i e (nodeWriteIOTask x.database io outcome).1
        (nodeWriteIOTask x.database io outcome).2.1).log (nodeWriteIOTask x.database io outcome).2.2)
  | finish {x i e io} : x.pool[i]? = some e → e.performed = true → x.tasks e.task = some io →
      Move t G x ((x.finished i e io).log [.finished e.task io.status io.data])

/-! ### The cells of a world -/

def Node.cell (n : Node D) (a : Nat) : Cell D := ⟨a, n.state, n.taskState, n.task, n.toBody⟩

def World.cell (w : World D) (c : NodeCoord) : Option (Cell D) :=
  (w.find c.scaleIndex c.position).join.bind fun a => (w.heap a).map (·.cell a)

def view (c : World D × List Event) : Cells D :=
  ⟨c.1.cell, c.1.tasks, c.1.pool, c.1.database, c.2⟩

theorem cell_of_at {w : World D} {s : Nat} {pos : Vector3i} {a : Nat} {n : Node D}
    (hat : w.At s pos a n) : w.cell ⟨pos, s⟩ = some (n.cell a) := by
  simp only [World.cell, hat.find, Option.join_some, Option.bind_some, hat.heap, Option.map_some]

theorem at_of_cell {w : World D} {c : NodeCoord} {k : Cell D} (h : w.cell c = some k) :
    ∃ n, w.At c.scaleIndex c.position k.addr n ∧ n.cell k.addr = k := by
  obtain ⟨a, ha, hk⟩ := Option.bind_eq_some_iff.mp h
  obtain ⟨n, hn, rfl⟩ := Option.map_eq_some_iff.mp hk
  exact ⟨n, ⟨Option.join_eq_some_iff.mp ha, hn⟩, rfl⟩

/-- Cells depend on the maps and on the nodes without their links. -/
theorem cell_congr {w w' : World D} (hfind : ∀ s p, w'.find s p = w.find s p)
    (hheap : ∀ a, (w'.heap a).map Node.core = (w.heap a).map Node.core) : w'.cell = w.cell := by
  funext c
  have hcell : ∀ a, (w'.heap a).map (·.cell a) = (w.heap a).map (·.cell a) := by
    intro a
    have h := congrArg (Option.map fun n : Node D => n.cell a) (hheap a)
    rw [Option.map_map, Option.map_map] at h
    exact h
  simp only [World.cell, hfind, hcell]

theorem heap_of_core {w w' : World D} (h : w'.core = w.core) (a : Nat) :
    (w'.heap a).map Node.core = (w.heap a).map Node.core :=
  congrFun (congrArg World.heap h) a

theorem database_of_core {w w' : World D} (h : w'.core = w.core) : w'.database = w.database := by
  have hd : w'.core.database = w.core.database := by rw [h]
  exact hd

theorem find_of_core {w w' : World D} (h : w'.core = w.core) (s : Nat) (p : Vector3i) :
    w'.find s p = w.find s p := by
  simp only [World.find, scales_of_core h]

variable {t : TypeData D} {G : Guard} {w w' : World D} {s it : Nat} {a : Nat} {n : Node D}
  {pos : Vector3i}

theorem Placed.addr_ne (hw : Placed t w) (hat : w.At s pos a n) {c : NodeCoord} {b : Nat}
    (hc : c ≠ ⟨pos, s⟩) (hb : w.find c.scaleIndex c.position = some (some b)) : b ≠ a := by
  rintro rfl
  obtain ⟨hs, hp⟩ := hw.unique hb hat.find
  exact hc (by cases c; cases hs; cases hp; rfl)

theorem cell_update (hw : Placed t w) (hat : w.At s pos a n) {x : Option (Cell D)}
    (hself : w'.cell ⟨pos, s⟩ = x)
    (hfind : ∀ c : NodeCoord, c ≠ ⟨pos, s⟩ →
      w'.find c.scaleIndex c.position = w.find c.scaleIndex c.position)
    (hheap : ∀ b, b ≠ a → (w'.heap b).map Node.core = (w.heap b).map Node.core) :
    w'.cell = Function.update w.cell ⟨pos, s⟩ x := by
  funext c
  by_cases hc : c = ⟨pos, s⟩
  · subst hc
    rw [Function.update_self, hself]
  · rw [Function.update_of_ne hc]
    simp only [World.cell, hfind c hc]
    cases hb : w.find c.scaleIndex c.position with
    | none => rfl
    | some v =>
      cases v with
      | none => rfl
      | some b =>
        have hne := hw.addr_ne hat hc hb
        have h := congrArg (Option.map fun n : Node D => n.cell b) (hheap b hne)
        rw [Option.map_map, Option.map_map] at h
        exact h

theorem cell_modify (hw : Placed t w) (hat : w.At s pos a n) (f : Node D → Node D) :
    (w.modify a f).cell = Function.update w.cell ⟨pos, s⟩ (some ((f n).cell a)) := by
  refine cell_update hw hat ?_ (fun _ _ => rfl) ?_
  · refine cell_of_at ⟨hat.find, ?_⟩
    rw [World.heap_modify, Function.update_self, hat.heap, Option.map_some]
  · intro b hb
    rw [World.heap_modify, Function.update_of_ne hb]

theorem cell_modify_keep (hw : Placed t w) (hat : w.At s pos a n) {f : Node D → Node D}
    (hf : (f n).cell a = n.cell a) : (w.modify a f).cell = w.cell := by
  rw [cell_modify hw hat f, hf, ← cell_of_at hat, Function.update_eq_self]

theorem cell_create (hw : Placed t w) (now : Int) (hfind : w.find s pos = none)
    (ha : w.heap a = none) : (w.create t s pos now a).cell =
      Function.update w.cell ⟨pos, s⟩ (some ((newNode t s pos now).cell a)) := by
  funext c
  by_cases hc : c = ⟨pos, s⟩
  · subst hc
    rw [Function.update_self]
    refine cell_of_at ⟨?_, ?_⟩
    · simp only [World.create, World.find, World.scales_setScale, Function.update_self,
        AList.lookup_insert]
    · simp only [World.create, World.heap_setScale, Function.update_self]
  · rw [Function.update_of_ne hc]
    have hf : (w.create t s pos now a).find c.scaleIndex c.position =
        w.find c.scaleIndex c.position := by
      refine (World.find_insertNode _ _ _ fun _ => rfl).trans (if_neg fun h => hc ?_)
      cases c
      cases h.1
      cases h.2
      rfl
    simp only [World.cell, hf]
    cases hb : w.find c.scaleIndex c.position with
    | none => rfl
    | some v =>
      obtain ⟨-, b, st, rfl, hpl, -⟩ := hw.live hb
      have hne : b ≠ a := by
        rintro rfl
        simp only [World.place, ha, Option.map_none] at hpl
        cases hpl
      simp only [Option.join_some, Option.bind_some, World.create, World.heap_setScale,
        Function.update_of_ne hne]

variable (it) in
theorem cell_load (hw : Placed t w) (now : Int) (hat : w.At s pos a n) :
    ((finishLoad t s now w a n.position).eraseLoading s it).cell =
      Function.update w.cell ⟨pos, s⟩ (some ((n.afterLoad t now).cell a)) := by
  have hpos := hw.position hat
  have hcore := core_finishLoad t s a n.position now w
  have hstored : ((finishLoad t s now w a n.position).eraseLoading s it).cell =
      (w.modify a (Node.afterLoad t now)).cell := by
    refine cell_congr ?_ fun b => heap_of_core hcore b
    intro s' p
    have hf := find_of_core hcore s' p
    have he : ((finishLoad t s now w a n.position).eraseLoading s it).find s' p =
        (finishLoad t s now w a n.position).find s' p := by
      rw [World.eraseLoading, World.find_setScale_nodes]
      exact fun _ => rfl
    rw [he, hf, hpos]
    exact World.find_insertNode_same (w := w.modify a (Node.afterLoad t now)) hat.find s' p
      fun _ => rfl
  rw [hstored, cell_modify hw hat]

theorem heap_finishUnload (w : World D) (a : Nat) (pos : Vector3i) {b : Nat} (hb : b ≠ a) :
    ((finishUnload t s w a pos).heap b).map Node.core = (w.heap b).map Node.core := by
  have hunlink := heap_of_core (core_unlinkNode t.maxScale w a s) b
  rw [← hunlink]
  simp only [finishUnload, heap_destroyPoly, World.heap_setScale, World.heap_modify,
    Function.update_of_ne hb]

theorem database_destroyPoly (w : World D) (a : Nat) :
    (destroyPoly w a).database = w.database := by
  unfold destroyPoly
  split <;> rfl

theorem database_finishUnload (w : World D) (a : Nat) (pos : Vector3i) :
    (finishUnload t s w a pos).database = w.database := by
  have hunlink := database_of_core (core_unlinkNode t.maxScale w a s)
  rw [← hunlink]
  simp only [finishUnload, database_destroyPoly]
  rfl

variable (it) in
theorem cell_destroy (hw : Placed t w) (hat : w.At s pos a n) :
    ((finishUnload t s w a n.position).eraseUnloading s it).cell =
      Function.update w.cell ⟨pos, s⟩ none := by
  have hfind : ∀ c : NodeCoord,
      ((finishUnload t s w a n.position).eraseUnloading s it).find c.scaleIndex c.position =
        if c = ⟨pos, s⟩ then none else w.find c.scaleIndex c.position := by
    intro c
    simp only [World.eraseUnloading, World.find, World.scales_setScale, scales_finishUnload,
      hw.position hat, Function.update_self, Function.update_idem]
    by_cases hs : c.scaleIndex = s
    · rw [hs, Function.update_self]
      by_cases hp : c.position = pos
      · have hc : c = ⟨pos, s⟩ := by cases c; cases hs; cases hp; rfl
        rw [if_pos hc, hp, AList.lookup_erase]
      · have hc : c ≠ ⟨pos, s⟩ := fun hc => hp (congrArg NodeCoord.position hc)
        rw [if_neg hc, AList.lookup_erase_ne hp]
    · have hc : c ≠ ⟨pos, s⟩ := fun hc => hs (congrArg NodeCoord.scaleIndex hc)
      rw [Function.update_of_ne hs, if_neg hc]
  refine cell_update hw hat ?_ ?_ ?_
  · have h := hfind ⟨pos, s⟩
    rw [if_pos rfl] at h
    simp only [World.cell, h]
    rfl
  · intro c hc
    rw [hfind c, if_neg hc]
  · intro b hb
    exact heap_finishUnload w a n.position hb

theorem cell_mark {p : Vector3i} (w : World D) (a : Nat) :
    (w.mark s a p).cell = (w.modify a fun n => { n with state := .unloading }).cell := by
  refine cell_congr ?_ fun _ => rfl
  intro s' q
  exact World.find_setScale_nodes _ s s' q fun _ => rfl

/-! ### Every effect is a move -/

theorem Move.toView {w' : World D} {tr' : List Event} {y x : Cells D} (h : Move t G y x)
    (hc : w'.cell = x.cell) (ht : w'.tasks = x.tasks) (hp : w'.pool = x.pool)
    (hd : w'.database = x.database) (htr : tr' = x.trace) : Move t G y (view (w', tr')) := by
  have hx : view (w', tr') = x := by simp only [view, hc, ht, hp, hd, htr]
  rw [hx]
  exact h

theorem effect_move (hl : t.localNode = true) {c c' : World D × List Event} (hs : Sound t G c.1)
    (he : Effect t G c c') : view c' = view c ∨ Move t G (view c) (view c') := by
  have hw := hs.placed
  cases he with
  | touch now hat =>
    refine Or.inl ?_
    simp only [view]
    rw [cell_modify_keep hw hat rfl]
    rfl
  | unloadWorld => exact Or.inl rfl
  | @edit w tr s pos a n body hat =>
    have hmove := Move.edit (t := t) (G := G) (x := view (w, tr)) body (cell_of_at hat)
    exact Or.inr (hmove.toView (cell_modify hw hat _) rfl rfl rfl rfl)
  | @create w tr s pos a now hlt hfind ha =>
    have hfresh : ∀ d k, w.cell d = some k → k.addr ≠ a := by
      intro d k hk hka
      obtain ⟨n, hn, -⟩ := at_of_cell hk
      have hheap := hn.heap
      rw [hka, ha] at hheap
      cases hheap
    have hvacant : w.cell ⟨pos, s⟩ = none := by
      simp only [World.cell, hfind]
      rfl
    have hmove := Move.create (t := t) (G := G) (x := view (w, tr)) hlt hvacant hfresh
    exact Or.inr (hmove.toView (cell_create hw now hfind ha) rfl rfl rfl rfl)
  | @mark w tr s pos a n hat hst =>
    have hcell := cell_mark (s := s) (p := n.position) w a
    have hmove := Move.mark (t := t) (G := G) (x := view (w, tr)) (cell_of_at hat) hst
    exact Or.inr (hmove.toView (hcell.trans (cell_modify hw hat _)) rfl rfl rfl rfl)
  | @startRead w tr s pos a n τ hat hst _ hts hnone hfresh =>
    obtain rfl := hw.position hat
    have hmove := Move.startRead (t := t) (G := G) (x := view (w, tr)) (cell_of_at hat) hst hts
      hnone hfresh
    have hcell := cell_modify (w := w.addNativeTask .read τ { coord := ⟨n.position, n.scaleIndex⟩ })
      hw ⟨hat.find, hat.heap⟩ fun n => { n with task := some τ, taskState := .readInProgress }
    exact Or.inr (hmove.toView hcell rfl rfl rfl rfl)
  | @finishRead w tr s pos a n τ io seed hat hst _ hts hτ hio hfin hbad =>
    obtain rfl := hw.position hat
    have hmove := Move.finishRead (t := t) (G := G) (x := view (w, tr)) seed (cell_of_at hat) hst
      hts hτ hio hfin hbad
    have hcell := cell_modify (w := w.freeTask τ) hw ⟨hat.find, hat.heap⟩ fun m =>
      { m.withBody (readBody t seed n.position n.toBody io) with taskState := .readDone, task := none }
    exact Or.inr (hmove.toView hcell rfl rfl rfl rfl)
  | @load w tr s it pos a n now hlt hit hat hst hready =>
    have hready' : n.taskState = .readDone ∨ (n.taskState = .readInProgress ∧
        G.unfinishedRead ∧ ∃ τ, n.task = some τ) := by
      rcases hready hl with hts | ⟨hts, hG, τ, io, hτ, -⟩
      · exact Or.inl hts
      · exact Or.inr ⟨hts, hG, τ, hτ⟩
    have hmove := Move.load (t := t) (G := G) (x := view (w, tr)) (cell_of_at hat) hst hready'
    have hafter : (n.afterLoad t now).cell a =
        { n.cell a with state := .loaded, taskState := .idle } := by
      simp only [Node.afterLoad, hl, if_true]
      rfl
    have hcell := cell_load it hw now hat
    rw [hafter] at hcell
    have hcore := core_finishLoad t s a n.position now w
    have hdb := database_of_core hcore
    exact Or.inr (hmove.toView hcell (tasks_of_core hcore).1 (tasks_of_core hcore).2 hdb rfl)
  | @startWrite w tr s pos a n τ hat hst _ hts hnone hfresh =>
    obtain rfl := hw.position hat
    have hmove := Move.startWrite (t := t) (G := G) (x := view (w, tr)) (cell_of_at hat) hst hts
      hnone hfresh
    have hcell := cell_modify (w := w.addNativeTask .write τ
        { coord := ⟨n.position, n.scaleIndex⟩, data := t.serializeAll n.position n.toBody })
      hw ⟨hat.find, hat.heap⟩ fun n => { n with task := some τ, taskState := .writeInProgress }
    exact Or.inr (hmove.toView hcell rfl rfl rfl rfl)
  | @destroy w tr s it pos a n hlt hit hat hst hready =>
    obtain rfl := hw.position hat
    have hts := hready hl
    have hnone : n.task = none := by
      have hshape := hs.holds.shape (hold_of_heap hat.heap)
      simpa [Shape, Node.hold, hst, hts] using hshape
    obtain ⟨-, htasks, hpool⟩ := finishUnload_tasks t s n.position hat.heap hnone
    have hmove := Move.destroy (t := t) (G := G) (x := view (w, tr)) (cell_of_at hat) hst hts
    exact Or.inr (hmove.toView (cell_destroy it hw hat) htasks hpool
      (database_finishUnload w a n.position) rfl)
  | @destroyWritten w tr s it pos a n τ io hlt hit hat hst _ hts hτ hio hfin hbad =>
    obtain rfl := hw.position hat
    have hw' : Placed t (w.finishWrite a τ) := placed_keep hw rfl (place_finishWrite hat.heap)
    have hat' := at_finishWrite (τ := τ) hat
    have hwritten : (w.finishWrite a τ).cell = Function.update w.cell ⟨n.position, s⟩ _ :=
      cell_modify (w := w.freeTask τ) hw ⟨hat.find, hat.heap⟩ _
    have hcell := cell_destroy it hw' hat'
    rw [hwritten, Function.update_idem] at hcell
    obtain ⟨-, htasks, hpool⟩ := finishUnload_tasks t s n.position hat'.heap rfl
    have hmove := Move.destroyWritten (t := t) (G := G) (x := view (w, tr)) (cell_of_at hat) hst hts
      hτ hio hfin hbad
    exact Or.inr (hmove.toView hcell htasks hpool
      (database_finishUnload (w.finishWrite a τ) a n.position) rfl)
  | performRead outcome he hp hk hio hlegal herr =>
    exact Or.inr (.performRead outcome he hp hk hio hlegal herr)
  | performWrite outcome he hp hk hio hlegal herr =>
    exact Or.inr (.performWrite outcome he hp hk hio hlegal herr)
  | finish he hp hio => exact Or.inr (.finish he hp hio)

end CosmicArchitect.Spatial3D
