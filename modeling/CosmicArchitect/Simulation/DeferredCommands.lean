import CosmicArchitect.Commands.TypedCommandBuffer
import CosmicArchitect.Simulation.WaitUntilStopped

/-!
# Deferred commands (Simulation/SimulationServer.h, SimulationServer.cpp)

The owner defers commands between its other calls, the worker takes them over in its loop.
`DeferCommand` first asks whether there is a thread and then adds the command under the lock;
the worker moves the buffer out under the lock and makes the calls one by one. All of these
interleave.
-/

namespace CosmicArchitect.Simulation
open Library Commands

variable {κ : Type}

/-- Where the worker is in the body of its loop (lines 105-121). -/
inductive LoopBody (κ : Type)
  | takeCommands
  | processCommands (commandBuffer : TCommandBuffer κ) (bufferPos : Nat)
  | threadProgress
deriving DecidableEq

/- The server with its deferred commands. `deferring` is the command of a `DeferCommand` that
   has found a thread. `run` counts the threads started; `accepted` lists the commands for
   which `DeferCommand` returned true and `executed` those the worker has called, each with
   the run in which it happened. -/
structure Deferral (κ : Type) where
  server : Server := {}
  deferredCommands : TCommandBuffer κ := {}
  body : LoopBody κ := .takeCommands
  deferring : Option (Command κ) := none
  run : Nat := 0
  accepted : List (Nat × Command κ) := []
  executed : List (Nat × Command κ) := []
deriving DecidableEq

inductive DeferralLabel (κ : Type)
  | server (l : Label)
  | deferCommand (c : Command κ)
  | addCommand
deriving DecidableEq

namespace Deferral

/-- A step of the worker in the body of its loop. -/
def bodyNext (m : Deferral κ) : Option (Deferral κ) :=
  match m.body with
  | .takeCommands => some
    { m with
      deferredCommands := {}
      body := if m.deferredCommands.numCommands = 0 then .threadProgress
        else .processCommands m.deferredCommands m.deferredCommands.start }
  | .processCommands commandBuffer bufferPos =>
    (commandBuffer.nextRound bufferPos).map fun
      | .bufferEnd => { m with body := .threadProgress }
      | .command c next =>
        { m with
          body := .processCommands commandBuffer next
          executed := m.executed ++ [(m.run, c)] }
  | .threadProgress =>
    (workerNext m.server).map fun server => { m with server := server, body := .takeCommands }

def worker (m : Deferral κ) : Option (Deferral κ) :=
  if m.server.thread = some .doProgress then bodyNext m
  else (workerNext m.server).map fun server => { m with server := server }

/-- A step of the owner outside `DeferCommand`. -/
def owner (m : Deferral κ) (l : Label) : Option (Deferral κ) :=
  if m.deferring.isSome then none
  else (Simulation.step m.server l).map fun server =>
    { m with
      server := server
      run := if m.server.owner = .startThread then m.run + 1 else m.run }

/-- `DeferCommand` up to the lock; without a thread it returns false. -/
def deferCommand (m : Deferral κ) (c : Command κ) : Option (Deferral κ) :=
  if m.server.owner = .idle ∧ m.deferring.isNone then
    some (if m.server.thread.isSome then { m with deferring := some c } else m)
  else none

/-- `DeferCommand` under the lock; it returns true. -/
def addCommand (m : Deferral κ) : Option (Deferral κ) :=
  m.deferring.map fun c =>
    { m with
      deferring := none
      deferredCommands := m.deferredCommands.addCommand c
      accepted := m.accepted ++ [(m.run, c)] }

def step (m : Deferral κ) : DeferralLabel κ → Option (Deferral κ)
  | .server .worker => worker m
  | .server l => owner m l
  | .deferCommand c => deferCommand m c
  | .addCommand => addCommand m

end Deferral

def deferralMachine (κ : Type) : Machine (Deferral κ) (DeferralLabel κ) where
  init m := m = {}
  step := Deferral.step

/-- The worker has still to enter its loop or is in it. -/
def Worker.inLoop : Worker → Bool
  | .doLoad => true
  | .storeLoaded => true
  | .loadState => true
  | .doProgress => true
  | _ => false

def Server.inLoop (m : Server) : Bool := m.thread.any Worker.inLoop

/- The commands executed are the first ones accepted, in the order and in the run in which
   they were accepted, each once. None is open once the worker has left its loop, and until
   the simulation is told to stop the worker comes to all of them by its own steps. -/
structure Delivered (m : Deferral κ) : Prop where
  inOrder : m.executed <+: m.accepted
  beforeLeaving : m.server.inLoop = false → m.executed = m.accepted
  soon : m.server.inLoop = true → m.server.state ≠ .unloading →
    ∃ m', Relation.ReflTransGen (fun a b => Deferral.worker a = some b) m m' ∧
      m'.accepted = m.accepted ∧ m'.executed = m.accepted

/- The worker finds no command waiting when the head of its loop sends it out of the loop,
   and no command is accepted from there until the next thread is started. -/
def Collected (m : Deferral κ) : DeferralLabel κ → Prop
  | .server .worker => m.server.thread = some .loadState → m.server.state ≠ .loaded →
    m.deferredCommands.remaining = []
  | .addCommand => m.server.inLoop = true
  | _ => True

/-! ### What the place of a thread says -/

/-- What the place of the owner says about the server in any run. -/
def Owner.Keeps : Owner → LoadState → Option Worker → Prop
  | .stopStore _, st, _ => st = .loaded
  | .stopDoUnload _, _, th => th = none
  | .stopStoreUnloaded _, _, th => th = none
  | .startCan _, _, th => th = none
  | .startStoreLoading _, _, th => th = none
  | .startThread, st, th => st = .loading ∧ th = none
  | .startDoLoad, _, th => th = none
  | .startStoreLoaded, _, th => th = none
  | _, _, _ => True

structure Server.Placed (m : Server) : Prop where
  worker : ∀ p, m.thread = some p → p.Fits m.state
  owner : m.owner.Keeps m.state m.thread

theorem placed_initial : Server.Placed {} := ⟨fun _ h => (by cases h), trivial⟩

variable {m m' : Server}

theorem keeps_afterStop (caller : Option WaitCaller) (st : LoadState) (th : Option Worker) :
    (afterStop caller).Keeps st th := by
  cases caller <;> trivial

theorem keeps_afterWait (caller : WaitCaller) (st : LoadState) :
    (afterWait caller).Keeps st none := by
  cases caller <;> trivial

theorem placed_enter (h : m.Placed) {caller : Option WaitCaller}
    (hs : enter m (.stopLoad caller) = some m') : m'.Placed := by
  rw [enter] at hs
  split at hs
  · cases hs
    exact ⟨h.worker, trivial⟩
  · cases hs

theorem placed_threadless (hth : m.thread = none) (howner : m.owner.Keeps m.state m.thread) :
    m.Placed :=
  ⟨fits_threadless hth, howner⟩

theorem Server.Placed.ownerAt (h : m.Placed) {owner : Owner} (howner : m.owner = owner) :
    owner.Keeps m.state m.thread :=
  howner ▸ h.owner

theorem placed_owner (h : m.Placed) {can : Bool} (hs : ownerNext can m = some m') :
    m'.Placed := by
  have hw := h.worker
  cases ownerNext_moved hs with
  | loaded howner hst => exact ⟨hw, hst⟩
  | notLoaded howner hst => exact ⟨hw, keeps_afterStop _ _ _⟩
  | stopStore howner =>
    have hst : m.state = .loaded := h.ownerAt howner
    refine ⟨fun p hp => ?_, trivial⟩
    have hfit := hw p hp
    rw [hst] at hfit
    exact hfit.unloading
  | stopThreaded howner hth => exact ⟨hw, keeps_afterStop _ _ _⟩
  | stopThreadless howner hth => exact ⟨hw, hth⟩
  | stopDoUnload howner =>
    have ho := h.ownerAt howner
    exact ⟨hw, ho⟩
  | stopStoreUnloaded howner =>
    exact placed_threadless (h.ownerAt howner) (keeps_afterStop _ _ _)
  | waitThreaded howner hth => exact ⟨hw, trivial⟩
  | waitThreadless howner hth =>
    refine ⟨hw, ?_⟩
    rw [hth]
    exact keeps_afterWait _ _
  | joined howner hth => exact placed_threadless rfl (keeps_afterWait _ _)
  | startCan howner =>
    have ho := h.ownerAt howner
    exact ⟨hw, ho⟩
  | startCannot howner => exact ⟨hw, trivial⟩
  | startThreaded howner =>
    have hth : m.thread = none := h.ownerAt howner
    exact placed_threadless hth ⟨rfl, hth⟩
  | startThreadless howner =>
    have hth : m.thread = none := h.ownerAt howner
    exact placed_threadless hth hth
  | startThread howner =>
    have hst : m.state = .loading := (h.ownerAt howner).1
    refine ⟨fun p hp => ?_, trivial⟩
    cases hp
    exact hst
  | startDoLoad howner =>
    have ho := h.ownerAt howner
    exact ⟨hw, ho⟩
  | startStoreLoaded howner => exact placed_threadless (h.ownerAt howner) trivial

theorem placed_worker (h : m.Placed) (hs : workerNext m = some m') : m'.Placed := by
  refine ⟨fits_worker h.worker hs, ?_⟩
  obtain ⟨p, hp, hnext⟩ := Option.bind_eq_some_iff.mp hs
  have hw : p.Fits m.state := h.worker p hp
  have ho := h.owner
  rw [hp] at ho
  cases p with
  | returned => cases hnext
  | _ =>
    cases hnext
    cases howner : m.owner <;> simp_all [Owner.Keeps, Worker.Fits]

theorem placed_step (h : m.Placed) {l : Label} (hs : Simulation.step m l = some m') :
    m'.Placed := by
  cases l with
  | startSimulation mode => exact placed_enter h hs
  | stopSimulation => exact placed_enter h hs
  | waitUntilStopped => exact placed_enter h hs
  | destructor => exact placed_enter h hs
  | owner can => exact placed_owner h hs
  | worker => exact placed_worker h hs

theorem inLoop_threadless (h : m.thread = none) : m.inLoop = false := by
  rw [Server.inLoop, h, Option.any_none]

theorem thread_ownerNext {can : Bool} (hs : ownerNext can m = some m') :
    if m.owner = .startThread then m'.thread = some .doLoad
    else m'.thread = m.thread ∨ m.thread = some .returned ∧ m'.thread = none := by
  cases ownerNext_moved hs with
  | startThread howner =>
    rw [howner]
    rfl
  | joined howner hth =>
    rw [howner]
    exact Or.inr ⟨hth, rfl⟩
  | _ howner =>
    rw [howner]
    exact Or.inl rfl

theorem thread_step {l : Label} (hl : l ≠ .worker) (hs : Simulation.step m l = some m') :
    if m.owner = .startThread then m'.thread = some .doLoad
    else m'.thread = m.thread ∨ m.thread = some .returned ∧ m'.thread = none := by
  cases l with
  | worker => exact absurd rfl hl
  | owner can => exact thread_ownerNext hs
  | _ =>
    simp only [Simulation.step, enter] at hs
    split at hs
    · next hidle =>
      cases hs
      rw [hidle]
      exact Or.inl rfl
    · cases hs

/-! ### No command is lost on the way -/

/-- The commands the worker has taken over and not yet called. -/
def LoopBody.waiting : LoopBody κ → List (Command κ)
  | .processCommands commandBuffer bufferPos =>
    Blocks.behind Command.size commandBuffer.data bufferPos
  | _ => []

def LoopBody.Sound : LoopBody κ → Prop
  | .processCommands commandBuffer bufferPos => ∃ passed, commandBuffer.At bufferPos passed
  | _ => True

def Deferral.waiting (m : Deferral κ) : List (Command κ) :=
  m.body.waiting ++ m.deferredCommands.remaining

/- What holds as long as no command was dropped: the accepted commands are the executed ones
   and behind them those that wait, all of these for the current run. -/
structure Conserved (m : Deferral κ) : Prop where
  placed : m.server.Placed
  wellFormed : m.deferredCommands.WellFormed
  sound : m.body.Sound
  outside : m.server.thread ≠ some .doProgress → m.body = .takeCommands
  accepted : m.accepted = m.executed ++ m.waiting.map (Prod.mk m.run)
  left : m.server.inLoop = false → m.waiting = []

theorem conserved_initial : Conserved ({} : Deferral κ) :=
  ⟨placed_initial, TCommandBuffer.wellFormed_empty, trivial, fun _ => rfl, rfl, fun _ => rfl⟩

variable {d d' : Deferral κ}

theorem Conserved.waiting_outside (h : Conserved d) (hth : d.server.thread ≠ some .doProgress) :
    d.waiting = d.deferredCommands.remaining := by
  rw [Deferral.waiting, h.outside hth]
  rfl

/-- Moving the buffer out moves the commands that wait in it. -/
theorem waiting_taken (h : d.deferredCommands.WellFormed) :
    (if d.deferredCommands.numCommands = 0 then LoopBody.threadProgress
      else .processCommands d.deferredCommands d.deferredCommands.start).waiting =
      d.deferredCommands.remaining := by
  split
  · next hzero =>
    rw [h.numCommands] at hzero
    exact (List.eq_nil_of_length_eq_zero hzero).symm
  · rfl

theorem not_left (hin : d.server.inLoop = true) {P : Prop} (hout : d.server.inLoop = false) : P :=
  absurd hin (by rw [hout]; exact Bool.false_ne_true)

theorem conserved_body (h : Conserved d) (hth : d.server.thread = some .doProgress)
    (hs : d.bodyNext = some d') : Conserved d' := by
  have hin : d.server.inLoop = true := by rw [Server.inLoop, hth]; rfl
  have hsound := h.sound
  have hacc := h.accepted
  unfold Deferral.bodyNext at hs
  cases hbody : d.body with
  | takeCommands =>
    rw [hbody] at hs
    cases hs
    have hwait : d.waiting = d.deferredCommands.remaining := by
      rw [Deferral.waiting, hbody]
      rfl
    refine ⟨h.placed, TCommandBuffer.wellFormed_empty, ?_, fun hne => absurd hth hne, ?_,
      not_left hin⟩
    · show LoopBody.Sound (if _ then _ else _)
      split
      · trivial
      · exact ⟨[], h.wellFormed.at_start⟩
    · show d.accepted = d.executed ++ List.map (Prod.mk d.run) (LoopBody.waiting _ ++ [])
      rw [List.append_nil, waiting_taken h.wellFormed, hacc, hwait]
  | processCommands commandBuffer bufferPos =>
    rw [hbody] at hs hsound
    obtain ⟨passed, hat⟩ := hsound
    have hwait : d.waiting = Blocks.behind Command.size commandBuffer.data bufferPos ++
        d.deferredCommands.remaining := by
      rw [Deferral.waiting, hbody]
      rfl
    rcases hat.nextRound with ⟨hround, hnil⟩ | ⟨c, hround, hcons, hnext⟩
    · simp only [hround, Option.map_some] at hs
      cases hs
      refine ⟨h.placed, h.wellFormed, trivial, fun hne => absurd hth hne, ?_,
        not_left hin⟩
      rw [hacc, hwait, hnil]
      rfl
    · simp only [hround, Option.map_some] at hs
      cases hs
      refine ⟨h.placed, h.wellFormed, ⟨_, hnext⟩, fun hne => absurd hth hne, ?_,
        not_left hin⟩
      show d.accepted = d.executed ++ [(d.run, c)] ++ List.map (Prod.mk d.run) (_ ++ _)
      rw [hacc, hwait, hcons, List.append_assoc]
      rfl
  | threadProgress =>
    rw [hbody] at hs
    obtain ⟨server, hserver, rfl⟩ := Option.map_eq_some_iff.mp hs
    refine ⟨placed_worker h.placed hserver, h.wellFormed, trivial, fun _ => rfl, ?_, ?_⟩
    · rw [hacc, Deferral.waiting, hbody]
      rfl
    · intro hout
      simp only [workerNext, hth, Option.bind_some, Option.some.injEq] at hserver
      subst hserver
      exact absurd hout (by simp [Server.inLoop, Worker.inLoop])

/-- The worker outside the body of its loop, which it leaves with nothing waiting. -/
theorem conserved_outside (h : Conserved d) (hth : d.server.thread ≠ some .doProgress)
    (hguard : Collected d (.server .worker)) {server : Server}
    (hs : workerNext d.server = some server) : Conserved { d with server := server } := by
  refine ⟨placed_worker h.placed hs, h.wellFormed, h.sound, fun _ => h.outside hth,
    h.accepted, fun hout => ?_⟩
  show d.waiting = []
  obtain ⟨p, hp, hnext⟩ := Option.bind_eq_some_iff.mp hs
  cases p with
  | loadState =>
    cases hnext
    rw [h.waiting_outside hth]
    refine hguard hp fun hst => ?_
    simp [Server.inLoop, Worker.inLoop, hst] at hout
  | doUnload => exact h.left (by rw [Server.inLoop, hp]; rfl)
  | storeUnloaded => exact h.left (by rw [Server.inLoop, hp]; rfl)
  | doLoad =>
    cases hnext
    cases hout
  | storeLoaded =>
    cases hnext
    cases hout
  | doProgress => exact absurd hp hth
  | returned => cases hnext

theorem conserved_worker (h : Conserved d) (hguard : Collected d (.server .worker))
    (hs : d.worker = some d') : Conserved d' := by
  rw [Deferral.worker] at hs
  split at hs
  · next hth => exact conserved_body h hth hs
  · next hth =>
    obtain ⟨server, hserver, rfl⟩ := Option.map_eq_some_iff.mp hs
    exact conserved_outside h hth hguard hserver

/-- The owner starts a thread only where none is left and no command waits. -/
theorem conserved_owner (h : Conserved d) {l : Label} (hl : l ≠ .worker)
    (hs : d.owner l = some d') : Conserved d' := by
  rw [Deferral.owner] at hs
  split at hs
  · cases hs
  · obtain ⟨server, hserver, rfl⟩ := Option.map_eq_some_iff.mp hs
    have hthread := thread_step hl hserver
    have hplaced := placed_step h.placed hserver
    split at hthread
    · next howner =>
      have hnone : d.server.thread = none := by
        have hkeeps := h.placed.owner
        rw [howner] at hkeeps
        exact hkeeps.2
      have hwait : d.waiting = [] := h.left (inLoop_threadless hnone)
      refine ⟨hplaced, h.wellFormed, h.sound, fun _ => h.outside (by simp [hnone]), ?_,
        fun _ => hwait⟩
      show d.accepted = d.executed ++ d.waiting.map _
      rw [h.accepted, hwait]
      rfl
    · next howner =>
      refine ⟨hplaced, h.wellFormed, h.sound, fun hne => h.outside ?_, ?_, fun hout => ?_⟩
      · rcases hthread with hsame | ⟨hret, -⟩
        · rw [← hsame]
          exact hne
        · simp [hret]
      · simp only [if_neg howner]
        exact h.accepted
      · refine h.left ?_
        rcases hthread with hsame | ⟨hret, -⟩
        · rw [Server.inLoop, ← hsame]
          exact hout
        · rw [Server.inLoop, hret]
          rfl

theorem conserved_deferCommand (h : Conserved d) {c : Command κ}
    (hs : d.deferCommand c = some d') : Conserved d' := by
  rw [Deferral.deferCommand] at hs
  split at hs
  · cases hs
    split
    · exact ⟨h.placed, h.wellFormed, h.sound, h.outside, h.accepted, h.left⟩
    · exact h
  · cases hs

theorem conserved_addCommand (h : Conserved d) (hguard : d.server.inLoop = true)
    (hs : d.addCommand = some d') : Conserved d' := by
  obtain ⟨c, -, rfl⟩ := Option.map_eq_some_iff.mp hs
  obtain ⟨hwf, hremaining⟩ := h.wellFormed.addCommand c
  refine ⟨h.placed, hwf, h.sound, h.outside, ?_, not_left hguard⟩
  have hwait : Deferral.waiting { d with deferredCommands := d.deferredCommands.addCommand c } =
      d.waiting ++ [c] := by
    rw [Deferral.waiting, hremaining, ← List.append_assoc]
    rfl
  show d.accepted ++ [(d.run, c)] = d.executed ++ List.map (Prod.mk d.run) (Deferral.waiting
    { d with deferredCommands := d.deferredCommands.addCommand c })
  rw [hwait, h.accepted, List.map_append, List.append_assoc]
  rfl

theorem conserved_step (h : Conserved d) {l : DeferralLabel κ} (hguard : Collected d l)
    (hs : d.step l = some d') : Conserved d' := by
  cases l with
  | server l =>
    cases l with
    | worker => exact conserved_worker h hguard hs
    | startSimulation mode => exact conserved_owner h (fun hl => by cases hl) hs
    | stopSimulation => exact conserved_owner h (fun hl => by cases hl) hs
    | waitUntilStopped => exact conserved_owner h (fun hl => by cases hl) hs
    | destructor => exact conserved_owner h (fun hl => by cases hl) hs
    | owner can => exact conserved_owner h (fun hl => by cases hl) hs
  | deferCommand c => exact conserved_deferCommand h hs
  | addCommand => exact conserved_addCommand h hguard hs

/-! ### The worker comes to every command -/

structure Works (d d' : Deferral κ) : Prop where
  steps : Relation.ReflTransGen (fun a b => Deferral.worker a = some b) d d'
  conserved : Conserved d'
  accepted : d'.accepted = d.accepted

theorem Works.trans {d'' : Deferral κ} (h : Works d d') (h' : Works d' d'') : Works d d'' :=
  ⟨h.steps.trans h'.steps, h'.conserved, h'.accepted.trans h.accepted⟩

theorem Works.refl (h : Conserved d) : Works d d := ⟨.refl, h, rfl⟩

theorem accepted_worker (hs : d.worker = some d') : d'.accepted = d.accepted := by
  rw [Deferral.worker] at hs
  split at hs
  · unfold Deferral.bodyNext at hs
    split at hs
    · cases hs
      rfl
    · obtain ⟨round, -, rfl⟩ := Option.map_eq_some_iff.mp hs
      cases round <;> rfl
    · obtain ⟨server, -, rfl⟩ := Option.map_eq_some_iff.mp hs
      rfl
  · obtain ⟨server, -, rfl⟩ := Option.map_eq_some_iff.mp hs
    rfl

/-- A step of the worker with which it does not leave its loop. -/
theorem Conserved.works (h : Conserved d)
    (hstay : d.server.thread = some .loadState → d.server.state = .loaded)
    (hs : d.worker = some d') : Works d d' :=
  ⟨.single hs, conserved_worker h (fun hth hne => absurd (hstay hth) hne) hs,
    accepted_worker hs⟩

theorem works_processed (commands : List (Command κ)) : ∀ {d : Deferral κ} {b : TCommandBuffer κ}
    {bufferPos : Nat}, Conserved d → d.server.thread = some .doProgress →
    d.body = .processCommands b bufferPos →
    Blocks.behind Command.size b.data bufferPos = commands →
    ∃ d', Works d d' ∧ d'.server = d.server ∧ d'.deferredCommands = d.deferredCommands ∧
      d'.body = .threadProgress := by
  induction commands with
  | nil =>
    intro d b bufferPos h hth hbody hnil
    obtain ⟨passed, hat⟩ : ∃ passed, b.At bufferPos passed := by
      have hsound := h.sound
      rw [hbody] at hsound
      exact hsound
    rcases hat.nextRound with ⟨hround, -⟩ | ⟨c, -, hcons, -⟩
    · have hs : d.worker = some { d with body := .threadProgress } := by
        rw [Deferral.worker, if_pos hth, Deferral.bodyNext, hbody]
        simp only [hround, Option.map_some]
      exact ⟨_, h.works (by simp [hth]) hs, rfl, rfl, rfl⟩
    · exact absurd (hnil.symm.trans hcons) (List.cons_ne_nil _ _).symm
  | cons c rest ih =>
    intro d b bufferPos h hth hbody hcons
    obtain ⟨passed, hat⟩ : ∃ passed, b.At bufferPos passed := by
      have hsound := h.sound
      rw [hbody] at hsound
      exact hsound
    rcases hat.nextRound with ⟨-, hnil⟩ | ⟨c', hround, hcons', -⟩
    · exact absurd (hnil.symm.trans hcons) (List.cons_ne_nil _ _).symm
    · obtain ⟨rfl, hrest⟩ := List.cons.inj (hcons'.symm.trans hcons)
      have hs : d.worker = some { d with
          body := .processCommands b (bufferPos + c'.size)
          executed := d.executed ++ [(d.run, c')] } := by
        rw [Deferral.worker, if_pos hth, Deferral.bodyNext, hbody]
        simp only [hround, Option.map_some]
      have hstep := h.works (by simp [hth]) hs
      obtain ⟨d', hd', hserver, hdeferred, hend⟩ := ih hstep.conserved hth rfl hrest
      exact ⟨d', hstep.trans hd', hserver, hdeferred, hend⟩

/-- A pass of the loop takes all commands over and calls them. -/
theorem works_pass (h : Conserved d) (hth : d.server.thread = some .doProgress)
    (hbody : d.body = .takeCommands) :
    ∃ d', Works d d' ∧ d'.server = d.server ∧ d'.waiting = [] := by
  have hs : d.worker = some { d with
      deferredCommands := {}
      body := if d.deferredCommands.numCommands = 0 then .threadProgress
        else .processCommands d.deferredCommands d.deferredCommands.start } := by
    rw [Deferral.worker, if_pos hth, Deferral.bodyNext, hbody]
  have hstep := h.works (by simp [hth]) hs
  by_cases hzero : d.deferredCommands.numCommands = 0
  · rw [if_pos hzero] at hstep
    exact ⟨_, hstep, rfl, rfl⟩
  · rw [if_neg hzero] at hstep
    obtain ⟨d', hd', hserver, hdeferred, hend⟩ := works_processed _ hstep.conserved hth rfl rfl
    refine ⟨d', hstep.trans hd', hserver, ?_⟩
    rw [Deferral.waiting, hdeferred, hend]
    rfl

theorem works_loaded (h : Conserved d) (hth : d.server.thread = some .loadState)
    (hst : d.server.state = .loaded) : ∃ d', Works d d' ∧ d'.waiting = [] := by
  have hs : d.worker = some { d with server := { d.server with thread := some .doProgress } } := by
    rw [Deferral.worker, if_neg (by simp [hth])]
    simp only [workerNext, hth, Option.bind_some, hst, if_true, Option.map_some]
  have hstep := h.works (fun _ => hst) hs
  obtain ⟨d', hd', -, hwait⟩ := works_pass hstep.conserved rfl (h.outside (by simp [hth]))
  exact ⟨d', hstep.trans hd', hwait⟩

theorem works_back (h : Conserved d) (hth : d.server.thread = some .doProgress)
    (hst : d.server.state = .loaded) : ∃ d', Works d d' ∧ d'.waiting = [] := by
  have hprogress : ∀ {e : Deferral κ}, Works d e → e.server = d.server →
      e.body = .threadProgress → ∃ d', Works d d' ∧ d'.waiting = [] := by
    intro e he hserver hbody
    have hs : e.worker = some { e with
        server := { d.server with thread := some .loadState }
        body := .takeCommands } := by
      rw [Deferral.worker, hserver, if_pos hth, Deferral.bodyNext, hbody, hserver]
      simp only [workerNext, hth, Option.bind_some, Option.map_some]
    have hstep := he.conserved.works (by simp [hserver, hth]) hs
    obtain ⟨d', hd', hwait⟩ := works_loaded hstep.conserved rfl hst
    exact ⟨d', (he.trans hstep).trans hd', hwait⟩
  cases hbody : d.body with
  | takeCommands =>
    obtain ⟨d', hd', -, hwait⟩ := works_pass h hth hbody
    exact ⟨d', hd', hwait⟩
  | processCommands b bufferPos =>
    obtain ⟨e, he, hserver, -, hend⟩ := works_processed _ h hth hbody rfl
    exact hprogress he hserver hend
  | threadProgress => exact hprogress (.refl h) rfl hbody

theorem works_storeLoaded (h : Conserved d) (hth : d.server.thread = some .storeLoaded) :
    ∃ d', Works d d' ∧ d'.waiting = [] := by
  have hs : d.worker = some { d with
      server := { d.server with state := .loaded, thread := some .loadState } } := by
    rw [Deferral.worker, if_neg (by simp [hth])]
    simp only [workerNext, hth, Option.bind_some, Option.map_some]
  have hstep := h.works (by simp [hth]) hs
  obtain ⟨d', hd', hwait⟩ := works_loaded hstep.conserved rfl rfl
  exact ⟨d', hstep.trans hd', hwait⟩

theorem Conserved.soon (h : Conserved d) (hin : d.server.inLoop = true)
    (hst : d.server.state ≠ .unloading) : ∃ d', Works d d' ∧ d'.waiting = [] := by
  cases hth : d.server.thread with
  | none => exact not_left hin (inLoop_threadless hth)
  | some p =>
    have hfits := h.placed.worker p hth
    cases p with
    | doLoad =>
      have hs : d.worker = some
          { d with server := { d.server with thread := some .storeLoaded } } := by
        rw [Deferral.worker, if_neg (by simp [hth])]
        simp only [workerNext, hth, Option.bind_some, Option.map_some]
      have hstep := h.works (by simp [hth]) hs
      obtain ⟨d', hd', hwait⟩ := works_storeLoaded hstep.conserved rfl
      exact ⟨d', hstep.trans hd', hwait⟩
    | storeLoaded => exact works_storeLoaded h hth
    | loadState => exact works_loaded h hth (hfits.resolve_right hst)
    | doProgress => exact works_back h hth (hfits.resolve_right hst)
    | doUnload => exact not_left hin (by rw [Server.inLoop, hth]; rfl)
    | storeUnloaded => exact not_left hin (by rw [Server.inLoop, hth]; rfl)
    | returned => exact not_left hin (by rw [Server.inLoop, hth]; rfl)

theorem Conserved.executed (h : Conserved d) (hwait : d.waiting = []) :
    d.executed = d.accepted := by
  rw [h.accepted, hwait, List.map_nil, List.append_nil]

theorem Conserved.delivered (h : Conserved d) : Delivered d := by
  refine ⟨?_, fun hout => h.executed (h.left hout), fun hin hst => ?_⟩
  · rw [h.accepted]
    exact List.prefix_append _ _
  · obtain ⟨d', hd', hwait⟩ := h.soon hin hst
    exact ⟨d', hd'.steps, hd'.accepted, (hd'.conserved.executed hwait).trans hd'.accepted⟩

/-! ### Exactly the collected commands are delivered -/

/-- A command that still waits when the worker leaves, or comes later, is not executed. -/
theorem collected_of_delivered (h : Conserved d) {l : DeferralLabel κ} (hs : d.step l = some d')
    (hd : Delivered d') : Collected d l := by
  cases l with
  | deferCommand c => trivial
  | addCommand =>
    obtain ⟨c, -, rfl⟩ := Option.map_eq_some_iff.mp hs
    by_contra hout
    have hleft : d.server.inLoop = false := Bool.eq_false_iff.mpr hout
    have hsame : d.executed = d.accepted ++ [(d.run, c)] := hd.beforeLeaving hleft
    rw [h.executed (h.left hleft)] at hsame
    exact absurd hsame (by simp)
  | server l =>
    cases l with
    | worker =>
      intro hth hst
      have hne : d.server.thread ≠ some .doProgress := by simp [hth]
      have hnext : d.step (.server .worker) =
          some { d with server := { d.server with thread := some .doUnload } } := by
        rw [Deferral.step, Deferral.worker, if_neg hne]
        simp only [workerNext, hth, Option.bind_some, if_neg hst, Option.map_some]
      cases hnext.symm.trans hs
      have hsame : d.executed = d.accepted := hd.beforeLeaving rfl
      rw [h.accepted] at hsame
      rw [← h.waiting_outside hne]
      exact List.map_eq_nil_iff.mp (List.self_eq_append_right.mp hsame)
    | _ => trivial

theorem collected_iff (h : Conserved d) {l : DeferralLabel κ} (hs : d.step l = some d') :
    Delivered d' ↔ Collected d l :=
  ⟨collected_of_delivered h hs, fun hguard => (conserved_step h hguard hs).delivered⟩

/-- The states of a run deliver the deferred commands exactly when the worker finds none
waiting as it leaves its loop and none is accepted from there until its thread is gone. -/
theorem deferred_delivered {ls : List (DeferralLabel κ)}
    (hs : (deferralMachine κ).exec {} ls = some d) :
    (deferralMachine κ).Follows (fun a l => ∀ b, a.step l = some b → Delivered b) {} ls ↔
      (deferralMachine κ).Follows Collected {} ls := by
  refine Machine.follows_iff (I := Conserved) ?_ ?_ conserved_initial hs
  · intro a l b ha hb hstep
    exact conserved_step ha ((collected_iff ha hstep).mp (hb b hstep)) hstep
  · intro a l b ha hstep
    refine ⟨fun h => (collected_iff ha hstep).mp (h b hstep), fun h b' hb' => ?_⟩
    exact (collected_iff ha hb').mpr h

instance decidableCollected (d : Deferral κ) :
    (l : DeferralLabel κ) → Decidable (Collected d l)
  | .server .worker => inferInstanceAs (Decidable (_ → _ → _ = _))
  | .server (.startSimulation _) => isTrue trivial
  | .server .stopSimulation => isTrue trivial
  | .server .waitUntilStopped => isTrue trivial
  | .server .destructor => isTrue trivial
  | .server (.owner _) => isTrue trivial
  | .deferCommand _ => isTrue trivial
  | .addCommand => inferInstanceAs (Decidable (_ = true))

def serverLabels (ls : List Label) : List (DeferralLabel Unit) := ls.map .server

/-- The owner starts the server, defers a command, and stops the server after the worker has
taken the command over. -/
def collectedRun : List (DeferralLabel Unit) :=
  serverLabels ([.startSimulation .multiThreaded] ++ List.replicate 5 (.owner true)) ++
    [.deferCommand ⟨(), 0⟩, .addCommand] ++ serverLabels (List.replicate 4 .worker) ++
    serverLabels ([.stopSimulation] ++ List.replicate 3 (.owner true)) ++
    serverLabels (List.replicate 6 .worker)

theorem deferred_delivered_collectedRun :
    ∃ d, (deferralMachine Unit).exec {} collectedRun = some d ∧
      (deferralMachine Unit).Follows (fun a l => ∀ b, a.step l = some b → Delivered b) {}
        collectedRun := by
  obtain ⟨d, hd⟩ := Option.isSome_iff_exists.mp
    (show ((deferralMachine Unit).exec {} collectedRun).isSome = true from by decide +kernel)
  exact ⟨d, hd, (deferred_delivered hd).mpr (by decide +kernel)⟩

/-- The owner stops the server during a pass of the loop, defers a command, and starts the
server again. -/
def carriedRun : List (DeferralLabel Unit) :=
  serverLabels ([.startSimulation .multiThreaded] ++ List.replicate 5 (.owner true)) ++
    serverLabels (List.replicate 4 .worker) ++
    serverLabels ([.stopSimulation] ++ List.replicate 3 (.owner true)) ++
    [.deferCommand ⟨(), 0⟩, .addCommand] ++ serverLabels (List.replicate 4 .worker) ++
    serverLabels ([.startSimulation .multiThreaded] ++ List.replicate 6 (.owner true)) ++
    serverLabels (List.replicate 5 .worker)

/-- The command of the first run is executed in the second one. -/
theorem deferred_command_carried :
    ∃ d, (deferralMachine Unit).exec {} carriedRun = some d ∧
      d.accepted = [(1, ⟨(), 0⟩)] ∧ d.executed = [(2, ⟨(), 0⟩)] ∧ ¬ Delivered d := by
  obtain ⟨d, hd, hends⟩ := Option.map_eq_some_iff.mp
    (show ((deferralMachine Unit).exec {} carriedRun).map (fun d => (d.accepted, d.executed)) =
      some ([(1, ⟨(), 0⟩)], [(2, ⟨(), 0⟩)]) from by decide +kernel)
  obtain ⟨hacc, hexec⟩ := Prod.mk.inj hends
  refine ⟨d, hd, hacc, hexec, fun h => ?_⟩
  have hprefix := h.inOrder
  rw [hacc, hexec] at hprefix
  exact absurd hprefix (by decide)

end CosmicArchitect.Simulation
