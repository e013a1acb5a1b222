import CosmicArchitect.Library.Machine

/-!
# The simulation server (Simulation/SimulationServer.cpp)

The owner thread calls `StartSimulation`, `StopSimulation`, `WaitUntilStopped` and the
destructor, the worker thread runs `ThreadLoop`. Every access to `m_state` or `m_thread` and
every call of a simulation method is one step, and the steps of the two threads interleave.
-/

namespace CosmicArchitect.Simulation

/-- `SimulationServer::State` -/
inductive LoadState
  | unloaded
  | loading
  | loaded
  | unloading
deriving DecidableEq, Repr

inductive ThreadMode
  | singleThreaded
  | multiThreaded
deriving DecidableEq, Repr

/-- Who called `WaitUntilStopped`. -/
inductive WaitCaller
  | waitUntilStopped
  | startSimulation (mode : ThreadMode)
  | destructor
deriving DecidableEq, Repr

/- Where the owner thread is. In `StopSimulation` the argument is the caller of the
   `WaitUntilStopped` around it, `none` when the owner called it itself. -/
inductive Owner
  | idle
  | stopLoad (caller : Option WaitCaller)
  | stopStore (caller : Option WaitCaller)
  | stopIsThreaded (caller : Option WaitCaller)
  | stopDoUnload (caller : Option WaitCaller)
  | stopStoreUnloaded (caller : Option WaitCaller)
  | waitIsThreaded (caller : WaitCaller)
  | join (caller : WaitCaller)
  | startCan (mode : ThreadMode)
  | startStoreLoading (mode : ThreadMode)
  | startThread
  | startDoLoad
  | startStoreLoaded
  | destroyed
deriving DecidableEq, Repr

/-- Where the worker thread is in `ThreadLoop` (lines 93-126). -/
inductive Worker
  | doLoad
  | storeLoaded
  | loadState
  | doProgress
  | doUnload
  | storeUnloaded
  | returned
deriving DecidableEq, Repr

/-- `thread` is `none` when `m_thread` is not joinable. -/
structure Server where
  owner : Owner := .idle
  state : LoadState := .unloaded
  thread : Option Worker := none
deriving DecidableEq, Repr

inductive Label
  | startSimulation (mode : ThreadMode)
  | stopSimulation
  | waitUntilStopped
  | destructor
  | owner (canSimulationStart : Bool)
  | worker
deriving DecidableEq, Repr

/-- Where `StopSimulation` returns to. -/
def afterStop : Option WaitCaller → Owner
  | none => .idle
  | some caller => .waitIsThreaded caller

/-- Where `WaitUntilStopped` returns to. -/
def afterWait : WaitCaller → Owner
  | .waitUntilStopped => .idle
  | .startSimulation mode => .startCan mode
  | .destructor => .destroyed

/-- The next step of the owner inside a call; `none` while `join` blocks. -/
def ownerNext (canSimulationStart : Bool) (m : Server) : Option Server :=
  match m.owner with
  | .stopLoad caller => some
    { m with owner := if m.state ≠ .loaded then afterStop caller else .stopStore caller }
  | .stopStore caller => some { m with state := .unloading, owner := .stopIsThreaded caller }
  | .stopIsThreaded caller => some
    { m with owner := if m.thread.isSome then afterStop caller else .stopDoUnload caller }
  | .stopDoUnload caller => some { m with owner := .stopStoreUnloaded caller }
  | .stopStoreUnloaded caller => some { m with state := .unloaded, owner := afterStop caller }
  | .waitIsThreaded caller => some
    { m with owner := if m.thread.isSome then .join caller else afterWait caller }
  | .join caller =>
    if m.thread = some .returned then some { m with thread := none, owner := afterWait caller }
    else none
  | .startCan mode => some
    { m with owner := if canSimulationStart then .startStoreLoading mode else .idle }
  | .startStoreLoading mode => some
    { m with
      state := .loading
      owner := match mode with
        | .multiThreaded => .startThread
        | .singleThreaded => .startDoLoad }
  | .startThread => some { m with thread := some .doLoad, owner := .idle }
  | .startDoLoad => some { m with owner := .startStoreLoaded }
  | .startStoreLoaded => some { m with state := .loaded, owner := .idle }
  | .idle => none
  | .destroyed => none

/- The next step of the worker; deferred commands, progress and signals are the one step
   `doProgress`, which leaves the state of the server alone. -/
def workerNext (m : Server) : Option Server :=
  m.thread.bind fun
    | .doLoad => some { m with thread := some .storeLoaded }
    | .storeLoaded => some { m with state := .loaded, thread := some .loadState }
    | .loadState => some
      { m with thread := some (if m.state = .loaded then .doProgress else .doUnload) }
    | .doProgress => some { m with thread := some .loadState }
    | .doUnload => some { m with thread := some .storeUnloaded }
    | .storeUnloaded => some { m with state := .unloaded, thread := some .returned }
    | .returned => none

/-- The owner enters a call. -/
def enter (m : Server) (owner : Owner) : Option Server :=
  if m.owner = .idle then some { m with owner := owner } else none

def step (m : Server) : Label → Option Server
  | .startSimulation mode => enter m (.stopLoad (some (.startSimulation mode)))
  | .stopSimulation => enter m (.stopLoad none)
  | .waitUntilStopped => enter m (.stopLoad (some .waitUntilStopped))
  | .destructor => enter m (.stopLoad (some .destructor))
  | .owner canSimulationStart => ownerNext canSimulationStart m
  | .worker => workerNext m

def serverMachine : Library.Machine Server Label where
  init m := m = {}
  step := step

variable {m m' : Server}

/-- What a step of the owner inside a call can do. -/
inductive OwnerMoved (m : Server) : Server → Prop
  | loaded {caller} (howner : m.owner = .stopLoad caller) (hst : m.state = .loaded) :
    OwnerMoved m { m with owner := .stopStore caller }
  | notLoaded {caller} (howner : m.owner = .stopLoad caller) (hst : m.state ≠ .loaded) :
    OwnerMoved m { m with owner := afterStop caller }
  | stopStore {caller} (howner : m.owner = .stopStore caller) :
    OwnerMoved m { m with state := .unloading, owner := .stopIsThreaded caller }
  | stopThreaded {caller} (howner : m.owner = .stopIsThreaded caller) (hth : m.thread ≠ none) :
    OwnerMoved m { m with owner := afterStop caller }
  | stopThreadless {caller} (howner : m.owner = .stopIsThreaded caller) (hth : m.thread = none) :
    OwnerMoved m { m with owner := .stopDoUnload caller }
  | stopDoUnload {caller} (howner : m.owner = .stopDoUnload caller) :
    OwnerMoved m { m with owner := .stopStoreUnloaded caller }
  | stopStoreUnloaded {caller} (howner : m.owner = .stopStoreUnloaded caller) :
    OwnerMoved m { m with state := .unloaded, owner := afterStop caller }
  | waitThreaded {caller} (howner : m.owner = .waitIsThreaded caller) (hth : m.thread ≠ none) :
    OwnerMoved m { m with owner := .join caller }
  | waitThreadless {caller} (howner : m.owner = .waitIsThreaded caller) (hth : m.thread = none) :
    OwnerMoved m { m with owner := afterWait caller }
  | joined {caller} (howner : m.owner = .join caller) (hth : m.thread = some .returned) :
    OwnerMoved m { m with thread := none, owner := afterWait caller }
  | startCan {mode} (howner : m.owner = .startCan mode) :
    OwnerMoved m { m with owner := .startStoreLoading mode }
  | startCannot {mode} (howner : m.owner = .startCan mode) : OwnerMoved m { m with owner := .idle }
  | startThreaded (howner : m.owner = .startStoreLoading .multiThreaded) :
    OwnerMoved m { m with state := .loading, owner := .startThread }
  | startThreadless (howner : m.owner = .startStoreLoading .singleThreaded) :
    OwnerMoved m { m with state := .loading, owner := .startDoLoad }
  | startThread (howner : m.owner = .startThread) :
    OwnerMoved m { m with thread := some .doLoad, owner := .idle }
  | startDoLoad (howner : m.owner = .startDoLoad) :
    OwnerMoved m { m with owner := .startStoreLoaded }
  | startStoreLoaded (howner : m.owner = .startStoreLoaded) :
    OwnerMoved m { m with state := .loaded, owner := .idle }

theorem ownerNext_moved {can : Bool} (hs : ownerNext can m = some m') : OwnerMoved m m' := by
  unfold ownerNext at hs
  cases howner : m.owner with
  | stopLoad caller =>
    rw [howner] at hs
    cases hs
    split
    · next hst => exact .notLoaded howner hst
    · next hst => exact .loaded howner (not_not.mp hst)
  | stopStore caller =>
    rw [howner] at hs
    cases hs
    exact .stopStore howner
  | stopIsThreaded caller =>
    rw [howner] at hs
    cases hs
    split
    · next hth => exact .stopThreaded howner (Option.isSome_iff_ne_none.mp hth)
    · next hth => exact .stopThreadless howner (Option.not_isSome_iff_eq_none.mp hth)
  | stopDoUnload caller =>
    rw [howner] at hs
    cases hs
    exact .stopDoUnload howner
  | stopStoreUnloaded caller =>
    rw [howner] at hs
    cases hs
    exact .stopStoreUnloaded howner
  | waitIsThreaded caller =>
    rw [howner] at hs
    cases hs
    split
    · next hth => exact .waitThreaded howner (Option.isSome_iff_ne_none.mp hth)
    · next hth => exact .waitThreadless howner (Option.not_isSome_iff_eq_none.mp hth)
  | join caller =>
    rw [howner] at hs
    simp only at hs
    split at hs
    · next hth =>
      cases hs
      exact .joined howner hth
    · cases hs
  | startCan mode =>
    rw [howner] at hs
    cases hs
    split
    · exact .startCan howner
    · exact .startCannot howner
  | startStoreLoading mode =>
    rw [howner] at hs
    cases hs
    cases mode with
    | multiThreaded => exact .startThreaded howner
    | singleThreaded => exact .startThreadless howner
  | startThread =>
    rw [howner] at hs
    cases hs
    exact .startThread howner
  | startDoLoad =>
    rw [howner] at hs
    cases hs
    exact .startDoLoad howner
  | startStoreLoaded =>
    rw [howner] at hs
    cases hs
    exact .startStoreLoaded howner
  | idle =>
    rw [howner] at hs
    cases hs
  | destroyed =>
    rw [howner] at hs
    cases hs

end CosmicArchitect.Simulation
