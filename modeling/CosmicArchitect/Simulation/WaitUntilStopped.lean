import CosmicArchitect.Simulation.SimulationServer

/-!
# Waiting for the worker

A `WaitUntilStopped` that meets the state Loading skips the stop request and joins a worker
that nobody will stop any more. In all other cases the worker is on its way to Unloaded when
the owner joins it.
-/

namespace CosmicArchitect.Simulation
open Library

variable {m m' : Server} {l : Label}

/-- The owner is about to check the state for a `WaitUntilStopped`. -/
def Owner.checksForWait : Owner → Bool
  | .stopLoad (some _) => true
  | _ => false

/-- A `WaitUntilStopped` checks the state while it is Loading. -/
def WaitsWhileLoading (m : Server) : Label → Prop
  | .owner _ => m.owner.checksForWait = true ∧ m.state = .loading
  | _ => False

instance (m : Server) (l : Label) : Decidable (WaitsWhileLoading m l) := by
  cases l <;> unfold WaitsWhileLoading <;> infer_instance

/-- What the place of the worker says about `m_state`. -/
def Worker.Fits : Worker → LoadState → Prop
  | .doLoad, st => st = .loading
  | .storeLoaded, st => st = .loading
  | .loadState, st => st = .loaded ∨ st = .unloading
  | .doProgress, st => st = .loaded ∨ st = .unloading
  | .doUnload, st => st = .unloading
  | .storeUnloaded, st => st = .unloading
  | .returned, st => st = .unloaded

/- What the place of the owner says about `m_state`, given whether there is a thread. Behind
   the check of a wait the state is Unloading or Unloaded. -/
def Owner.Fits : Owner → LoadState → Option Worker → Prop
  | .idle, st, th => th = none → st = .unloaded ∨ st = .loaded
  | .stopLoad _, st, th => th = none → st = .unloaded ∨ st = .loaded
  | .stopStore _, st, _ => st = .loaded
  | .stopIsThreaded _, st, th => st = .unloading ∨ (st = .unloaded ∧ th ≠ none)
  | .stopDoUnload _, st, th => st = .unloading ∧ th = none
  | .stopStoreUnloaded _, st, th => st = .unloading ∧ th = none
  | .waitIsThreaded _, st, th => (st = .unloading ∧ th ≠ none) ∨ st = .unloaded
  | .join _, st, th => th ≠ none ∧ (st = .unloading ∨ st = .unloaded)
  | .startCan _, st, th => st = .unloaded ∧ th = none
  | .startStoreLoading _, st, th => st = .unloaded ∧ th = none
  | .startThread, st, th => st = .loading ∧ th = none
  | .startDoLoad, st, th => st = .loading ∧ th = none
  | .startStoreLoaded, st, th => st = .loading ∧ th = none
  | .destroyed, st, th => st = .unloaded ∧ th = none

structure Fit (m : Server) : Prop where
  worker : ∀ p, m.thread = some p → p.Fits m.state
  owner : m.owner.Fits m.state m.thread

theorem fit_initial : Fit {} := ⟨fun _ h => (by cases h), fun _ => Or.inl rfl⟩

theorem fit_enter (h : Fit m) {caller : Option WaitCaller}
    (hs : enter m (.stopLoad caller) = some m') : Fit m' := by
  by_cases hidle : m.owner = .idle
  · have ho := h.owner
    rw [hidle] at ho
    rw [enter, if_pos hidle] at hs
    cases hs
    exact ⟨h.worker, ho⟩
  · rw [enter, if_neg hidle] at hs
    cases hs

theorem fit_afterStop {st : LoadState} {th : Option Worker}
    (h : (st = .unloading ∧ th ≠ none) ∨ st = .unloaded) (caller : Option WaitCaller) :
    (afterStop caller).Fits st th := by
  cases caller with
  | none =>
    intro hth
    rcases h with ⟨-, hne⟩ | hst
    · exact absurd hth hne
    · exact Or.inl hst
  | some caller => exact h

theorem fit_afterWait (caller : WaitCaller) : (afterWait caller).Fits .unloaded none := by
  cases caller with
  | waitUntilStopped => exact fun _ => Or.inl rfl
  | startSimulation mode => exact ⟨rfl, rfl⟩
  | destructor => exact ⟨rfl, rfl⟩

/-- With a thread the state Unloading or Unloaded is all a return from the check needs. -/
theorem fit_stopLoad (h : Fit m) {caller : Option WaitCaller} (howner : m.owner = .stopLoad caller)
    (hst : m.state ≠ .loaded) (hguard : caller ≠ none → m.state ≠ .loading) :
    (afterStop caller).Fits m.state m.thread := by
  have ho := h.owner
  rw [howner] at ho
  cases caller with
  | none => exact ho
  | some caller =>
    have hload : m.state ≠ .loading := hguard (Option.some_ne_none caller)
    cases hth : m.thread with
    | none =>
      refine fit_afterStop (Or.inr ?_) _
      rcases ho hth with hun | hlo
      · exact hun
      · exact absurd hlo hst
    | some p =>
      refine fit_afterStop ?_ _
      cases hms : m.state with
      | unloaded => exact Or.inr rfl
      | loading => exact absurd hms hload
      | loaded => exact absurd hms hst
      | unloading => exact Or.inl ⟨rfl, Option.some_ne_none p⟩

theorem Worker.Fits.unloading {p : Worker} (h : p.Fits .loaded) : p.Fits .unloading := by
  cases p <;> simp_all [Worker.Fits]

theorem fits_threadless (hth : m.thread = none) {st : LoadState} :
    ∀ p, m.thread = some p → p.Fits st :=
  fun _ hp => (Option.some_ne_none _ (hp.symm.trans hth)).elim

theorem Fit.ownerAt (h : Fit m) {owner : Owner} (howner : m.owner = owner) :
    owner.Fits m.state m.thread :=
  howner ▸ h.owner

theorem fit_owner (h : Fit m) {can : Bool} (hguard : ¬ WaitsWhileLoading m (.owner can))
    (hs : ownerNext can m = some m') : Fit m' := by
  have hw := h.worker
  cases ownerNext_moved hs with
  | loaded howner hst => exact ⟨hw, hst⟩
  | notLoaded howner hst =>
    refine ⟨hw, fit_stopLoad h howner hst fun hc hload => ?_⟩
    obtain ⟨c, rfl⟩ := Option.ne_none_iff_exists'.mp hc
    exact hguard ⟨by rw [howner]; rfl, hload⟩
  | stopStore howner =>
    have hst : m.state = .loaded := h.ownerAt howner
    refine ⟨fun p hp => ?_, Or.inl rfl⟩
    have hfit := hw p hp
    rw [hst] at hfit
    exact hfit.unloading
  | stopThreaded howner hth =>
    refine ⟨hw, fit_afterStop ?_ _⟩
    rcases h.ownerAt howner with hun | ⟨hun, -⟩
    · exact Or.inl ⟨hun, hth⟩
    · exact Or.inr hun
  | stopThreadless howner hth =>
    refine ⟨hw, ?_⟩
    rcases h.ownerAt howner with hun | ⟨-, hne⟩
    · exact ⟨hun, hth⟩
    · exact absurd hth hne
  | stopDoUnload howner =>
    have ho := h.ownerAt howner
    exact ⟨hw, ho⟩
  | stopStoreUnloaded howner =>
    exact ⟨fits_threadless (h.ownerAt howner).2, fit_afterStop (Or.inr rfl) _⟩
  | waitThreaded howner hth =>
    refine ⟨hw, hth, ?_⟩
    rcases h.ownerAt howner with ⟨hun, -⟩ | hun
    · exact Or.inl hun
    · exact Or.inr hun
  | waitThreadless howner hth =>
    refine ⟨hw, ?_⟩
    rcases h.ownerAt howner with ⟨-, hne⟩ | hun
    · exact absurd hth hne
    · rw [hth, hun]
      exact fit_afterWait _
  | joined howner hth =>
    have hun : m.state = .unloaded := hw _ hth
    refine ⟨fits_threadless rfl, ?_⟩
    rw [hun]
    exact fit_afterWait _
  | startCan howner =>
    have ho := h.ownerAt howner
    exact ⟨hw, ho⟩
  | startCannot howner => exact ⟨hw, fun _ => Or.inl (h.ownerAt howner).1⟩
  | startThreaded howner =>
    have hth : m.thread = none := (h.ownerAt howner).2
    exact ⟨fits_threadless hth, rfl, hth⟩
  | startThreadless howner =>
    have hth : m.thread = none := (h.ownerAt howner).2
    exact ⟨fits_threadless hth, rfl, hth⟩
  | startThread howner =>
    have hst : m.state = .loading := (h.ownerAt howner).1
    refine ⟨fun p hp => ?_, fun hth => by cases hth⟩
    cases hp
    exact hst
  | startDoLoad howner =>
    have ho := h.ownerAt howner
    exact ⟨hw, ho⟩
  | startStoreLoaded howner =>
    exact ⟨fits_threadless (h.ownerAt howner).2, fun _ => Or.inr rfl⟩

theorem fits_worker (h : ∀ p, m.thread = some p → p.Fits m.state) (hs : workerNext m = some m') :
    ∀ p, m'.thread = some p → p.Fits m'.state := by
  obtain ⟨p, hp, hnext⟩ := Option.bind_eq_some_iff.mp hs
  have hw : p.Fits m.state := h p hp
  intro q hq
  cases p with
  | doLoad =>
    cases hnext
    cases hq
    exact hw
  | storeLoaded =>
    cases hnext
    cases hq
    exact Or.inl rfl
  | loadState =>
    cases hnext
    cases hq
    by_cases hst : m.state = .loaded
    · simp only [hst, if_true]
      exact Or.inl rfl
    · simp only [hst, if_false]
      exact hw.resolve_left hst
  | doProgress =>
    cases hnext
    cases hq
    exact hw
  | doUnload =>
    cases hnext
    cases hq
    exact hw
  | storeUnloaded =>
    cases hnext
    cases hq
    exact rfl
  | returned => cases hnext

/-- The worker changes the state only where the owner allows for it. -/
theorem fit_worker (h : Fit m) (hs : workerNext m = some m') : Fit m' := by
  refine ⟨fits_worker h.worker hs, ?_⟩
  obtain ⟨p, hp, hnext⟩ := Option.bind_eq_some_iff.mp hs
  have hw : p.Fits m.state := h.worker p hp
  have ho := h.owner
  rw [hp] at ho
  cases p with
  | returned => cases hnext
  | _ =>
    cases hnext
    cases howner : m.owner <;> simp_all [Owner.Fits, Worker.Fits]

theorem fit_step (h : Fit m) (hguard : ¬ WaitsWhileLoading m l) (hs : step m l = some m') :
    Fit m' := by
  cases l with
  | startSimulation mode => exact fit_enter h hs
  | stopSimulation => exact fit_enter h hs
  | waitUntilStopped => exact fit_enter h hs
  | destructor => exact fit_enter h hs
  | owner can => exact fit_owner h hguard hs
  | worker => exact fit_worker h hs

theorem fit_of_reach (h : serverMachine.Reach (fun m l => ¬ WaitsWhileLoading m l) m) : Fit m := by
  refine h.invariant ?_ ?_
  · intro s hs
    cases hs
    exact fit_initial
  · intro s l s' _ hfit hguard hs
    exact fit_step hfit hguard hs

/-! ### The wait ends -/

theorem step_of_join {caller : WaitCaller} (howner : m.owner = .join caller)
    (hth : m.thread ≠ some .returned) (hs : step m l = some m') : l = .worker := by
  cases l with
  | worker => rfl
  | owner can =>
    simp only [step, ownerNext, howner, if_neg hth] at hs
    cases hs
  | _ =>
    simp only [step, enter, howner] at hs
    cases hs

/-- A state in which the worker was told to stop. -/
structure Stopping (m : Server) : Prop where
  fits : ∃ p, m.thread = some p ∧ p.Fits m.state
  notLoading : m.state ≠ .loading
  notLoaded : m.state ≠ .loaded

theorem Fit.stopping (h : Fit m) {caller : WaitCaller} (howner : m.owner = .join caller) :
    Stopping m := by
  have ho := h.owner
  rw [howner] at ho
  obtain ⟨hth, hst⟩ := ho
  obtain ⟨p, hp⟩ := Option.ne_none_iff_exists'.mp hth
  refine ⟨⟨p, hp, h.worker p hp⟩, ?_, ?_⟩
  · rcases hst with hst | hst <;> simp [hst]
  · rcases hst with hst | hst <;> simp [hst]

theorem Stopping.worker (h : Stopping m) (hs : workerNext m = some m') : Stopping m' := by
  obtain ⟨p, hp, hfit⟩ := h.fits
  obtain ⟨q, hq, hnext⟩ := Option.bind_eq_some_iff.mp hs
  cases hp.symm.trans hq
  cases p with
  | doLoad => exact absurd hfit h.notLoading
  | storeLoaded => exact absurd hfit h.notLoading
  | loadState =>
    cases hnext
    exact ⟨⟨.doUnload, by simp only [if_neg h.notLoaded], hfit.resolve_left h.notLoaded⟩,
      h.notLoading, h.notLoaded⟩
  | doProgress =>
    cases hnext
    exact ⟨⟨.loadState, rfl, hfit⟩, h.notLoading, h.notLoaded⟩
  | doUnload =>
    cases hnext
    exact ⟨⟨.storeUnloaded, rfl, hfit⟩, h.notLoading, h.notLoaded⟩
  | storeUnloaded =>
    cases hnext
    exact ⟨⟨.returned, rfl, rfl⟩, by simp, by simp⟩
  | returned => cases hnext

/-- The number of steps a stopping worker has left. -/
def Worker.remaining : Worker → Nat
  | .doProgress => 4
  | .loadState => 3
  | .doUnload => 2
  | .storeUnloaded => 1
  | _ => 0

def workerSteps (n : Nat) : List Label := List.replicate n .worker

theorem Stopping.exec (h : Stopping m) (n : Nat) :
    serverMachine.exec m (workerSteps n) = some m' → Stopping m' := by
  intro he
  refine Machine.exec_invariant (P := fun l => l = .worker) ?_ h (fun l hl => ?_) he
  · intro s l s' hs hl hstep
    subst hl
    exact hs.worker hstep
  · exact List.eq_of_mem_replicate hl

/-- Each step of a stopping worker leaves one step less, down to Unloaded. -/
theorem Stopping.ends (n : Nat) : ∀ {m : Server}, Stopping m →
    (∃ p, m.thread = some p ∧ p.remaining = n) →
    ∃ m', serverMachine.exec m (workerSteps n) = some m' ∧ m'.state = .unloaded ∧
      m'.thread = some .returned := by
  induction n with
  | zero =>
    intro m h hp
    obtain ⟨p, hp, hzero⟩ := hp
    obtain ⟨q, hq, hfit⟩ := h.fits
    cases hq.symm.trans hp
    refine ⟨m, rfl, ?_⟩
    cases p with
    | returned => exact ⟨hfit, hp⟩
    | doLoad => exact absurd hfit h.notLoading
    | storeLoaded => exact absurd hfit h.notLoading
    | _ => cases hzero
  | succ n ih =>
    intro m h hp
    obtain ⟨p, hp, hn⟩ := hp
    have hnext : ∃ m', workerNext m = some m' ∧ ∃ q, m'.thread = some q ∧ q.remaining = n := by
      cases p with
      | doProgress =>
        refine ⟨{ m with thread := some .loadState }, ?_, .loadState, rfl, Nat.succ.inj hn⟩
        simp only [workerNext, hp, Option.bind_some]
      | loadState =>
        refine ⟨{ m with thread := some .doUnload }, ?_, .doUnload, rfl, Nat.succ.inj hn⟩
        simp only [workerNext, hp, Option.bind_some, if_neg h.notLoaded]
      | doUnload =>
        refine ⟨{ m with thread := some .storeUnloaded }, ?_, .storeUnloaded, rfl,
          Nat.succ.inj hn⟩
        simp only [workerNext, hp, Option.bind_some]
      | storeUnloaded =>
        refine ⟨{ m with state := .unloaded, thread := some .returned }, ?_, .returned, rfl,
          Nat.succ.inj hn⟩
        simp only [workerNext, hp, Option.bind_some]
      | _ => cases hn
    obtain ⟨m1, hm1, hrem⟩ := hnext
    obtain ⟨m', hm', hend⟩ := ih (h.worker hm1) hrem
    refine ⟨m', ?_, hend⟩
    have hstep : serverMachine.step m .worker = some m1 := hm1
    simp only [workerSteps, List.replicate_succ, Machine.exec, hstep, Option.bind_some]
    exact hm'

/- What a blocked `join` can count on: nobody but the worker moves, the worker never sees or
   sets Loaded, and after finitely many of its steps it has returned in the state Unloaded. -/
structure JoinEnds (m : Server) : Prop where
  alone : m.thread ≠ some .returned → ∀ l m', step m l = some m' → l = .worker
  notLoaded : ∀ n m', serverMachine.exec m (workerSteps n) = some m' → m'.state ≠ .loaded
  returns : ∃ n m', serverMachine.exec m (workerSteps n) = some m' ∧ m'.state = .unloaded ∧
    m'.thread = some .returned

/-- In a run in which no wait checks the state while it is Loading every join ends. -/
theorem join_ends (h : serverMachine.Reach (fun m l => ¬ WaitsWhileLoading m l) m) :
    ∀ caller, m.owner = .join caller → JoinEnds m := by
  intro caller howner
  have hstop := (fit_of_reach h).stopping howner
  refine ⟨fun hth l m' hs => step_of_join howner hth hs, ?_, ?_⟩
  · intro n m' he
    exact (hstop.exec n he).notLoaded
  · obtain ⟨p, hp, -⟩ := hstop.fits
    obtain ⟨m', hm'⟩ := hstop.ends p.remaining ⟨p, hp, rfl⟩
    exact ⟨p.remaining, m', hm'⟩

/-- The owner starts the server, lets it load, and waits for it. -/
def waitRun : List Label :=
  [.startSimulation .multiThreaded, .owner true, .owner true, .owner true, .owner true,
    .owner true, .worker, .worker, .waitUntilStopped, .owner true, .owner true, .owner true,
    .owner true]

theorem join_ends_waitRun :
    ∃ m, serverMachine.exec {} waitRun = some m ∧ m.owner = .join .waitUntilStopped ∧
      JoinEnds m := by
  obtain ⟨m, hm, howner⟩ := Option.map_eq_some_iff.mp
    (show (serverMachine.exec {} waitRun).map Server.owner = some (.join .waitUntilStopped) from
      by decide)
  exact ⟨m, hm, howner, join_ends (.exec (.init rfl) (by decide) hm) _ howner⟩

/-! ### A wait during the load never ends -/

/-- The owner joins a worker that goes on for ever. -/
structure Hung (m : Server) : Prop where
  owner : m.owner = .join .waitUntilStopped
  state : m.state = .loaded
  thread : m.thread = some .loadState ∨ m.thread = some .doProgress

theorem Hung.step (h : Hung m) (hs : step m l = some m') : Hung m' := by
  have hth : m.thread ≠ some .returned := by
    intro hc
    rcases h.thread with hth | hth <;> rw [hc] at hth <;> cases hth
  cases step_of_join h.owner hth hs
  rcases h.thread with hth | hth
  · simp only [Simulation.step, workerNext, hth, Option.bind_some, h.state, if_true] at hs
    cases hs
    exact ⟨h.owner, rfl, Or.inr rfl⟩
  · simp only [Simulation.step, workerNext, hth, Option.bind_some] at hs
    cases hs
    exact ⟨h.owner, h.state, Or.inl rfl⟩

/-- The owner starts the server and waits for it before the worker has loaded. -/
def waitEarlyRun : List Label :=
  [.startSimulation .multiThreaded, .owner true, .owner true, .owner true, .owner true,
    .owner true, .waitUntilStopped, .owner true, .owner true, .worker, .worker]

/-- After `waitEarlyRun` the owner is blocked and the state Loaded, whatever happens next. -/
theorem waitEarly_hangs :
    ∃ m, serverMachine.Reachable m ∧ m.owner = .join .waitUntilStopped ∧ m.state = .loaded ∧
      ∀ ls m', serverMachine.exec m ls = some m' →
        m'.owner = .join .waitUntilStopped ∧ m'.state = .loaded := by
  have hrun : serverMachine.exec {} waitEarlyRun =
      some ⟨.join .waitUntilStopped, .loaded, some .loadState⟩ := by decide
  have hhung : Hung ⟨.join .waitUntilStopped, .loaded, some .loadState⟩ :=
    ⟨rfl, rfl, Or.inl rfl⟩
  refine ⟨_, Machine.reachable_of_exec rfl hrun, rfl, rfl, ?_⟩
  intro ls m' he
  have hm' : Hung m' := Machine.exec_invariant (M := serverMachine) (I := Hung)
    (P := fun _ => True) (fun _ _ _ hs _ hstep => hs.step hstep) hhung (fun _ _ => trivial) he
  exact ⟨hm'.owner, hm'.state⟩

end CosmicArchitect.Simulation
