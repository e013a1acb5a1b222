import CosmicArchitect.Spatial3D.Runs
import CosmicArchitect.Universe.WorldTypes

/-!
# The simulation and its entities (UniverseSimulation.cpp)

`StartLocalUniverse`, `DisconnectFromUniverse` and the callbacks of universe nodes ask for
entities to be loaded and unloaded, `SimulationUpdate` dispatches what they asked for, and the
load callbacks create the spatial worlds. A run starts after `SimulationInitialize`.

Between two dispatches the calls come in any order: `SimulationUpdate` runs the worlds in
parallel, and `StartLocalUniverse` is `CreateUniverse` and `CreateSimulatedGalaxy`, one after
the other.
-/

namespace CosmicArchitect.UniverseSimulation
open Serialize Spatial3D Universe

/-- `PolyEvent::BeginLoad` and `PolyEvent::BeginUnload`. -/
inductive LoadEvent
  | beginLoad
  | beginUnload
deriving DecidableEq, Repr

/-- `entity::Ref`; `none` is the null reference. -/
abbrev Ref := Option Nat

structure ThreadContext where
  loadCommands : List Ref := []
  unloadCommands : List Ref := []
deriving DecidableEq, Repr

/-- The two of the seven types that the entities below get. -/
inductive WorldConstructType
  | universe
  | galaxy
deriving DecidableEq, Repr

/-- A living entity: `type_id` of its entry and, of its components, `CWorld` and `CEntity`. -/
structure Entity where
  typeId : Nat
  worldType : WorldConstructType := .universe
  world : Option Nat := none
  parentWorld : Option Nat := none
deriving DecidableEq, Repr

/-! Indices of component types (Entity/EntityPoly.cpp:9-38). -/

def cRelationship : Nat := 2
def cTransform : Nat := 3
def cScenario : Nat := 4
def cPosition : Nat := 8
def cRotation : Nat := 10
def cLoader : Nat := 22
def cEntity : Nat := 24
def cWorld : Nat := 25
def cUniverse : Nat := 26
def cGalaxy : Nat := 27

def createTypeId (types : List Nat) : Nat :=
  types.foldl (fun id i => id ||| 1 <<< i) 0

def Entity.has (entity : Entity) (types : List Nat) : Bool :=
  types.all fun i => entity.typeId.testBit i

def kUniverseType : Nat := createTypeId [cUniverse, cRelationship, cWorld, cScenario, cTransform]

/-- `k_simulated_galaxy_type` of the release build. -/
def kSimulatedGalaxyType : Nat :=
  createTypeId [cGalaxy, cRelationship, cPosition, cRotation, cEntity, cWorld, cLoader, cTransform]

/-- `UUID{ 0, 0 }` -/
def universeId : Nat := 0

inductive SpatialWorld
  | universe (m : State UniverseNode)
  | galaxy (m : State GalaxyNode)

/-- Ways in which a dispatched event or a world leaves the defined behaviour. -/
inductive Fault
  | nullEntity
  | danglingEntity
  | nullWorld
  | danglingWorld
  | spatial
deriving DecidableEq, Repr

/-- `dispatching` is the loop over the thread contexts in `SimulationUpdate` (lines 326-341). -/
inductive Control
  | idle
  | dispatching
  | fault (f : Fault)
deriving DecidableEq, Repr

/-- What happened in a run. `loadRequested` names the world whose node asked, if one did. -/
inductive Entry
  | loadRequested (entity : Nat) (world : Option Nat)
  | unloadRequested (entity : Nat)
  | dispatched (event : LoadEvent) (entity : Nat)
deriving DecidableEq, Repr

/-- `Simulation`, with `m_universe_entity` and `m_galaxy_entity` of the server. Worlds stand
behind addresses; `spatial_scales` holds the scales of `spatial_worlds`. -/
structure Simulation where
  unloading : Bool := false
  threadContexts : List ThreadContext := []
  entityFactory : Nat → Option Entity := fun _ => none
  updatingEntities : List Nat := []
  universes : List Nat := []
  galaxies : List Nat := []
  spatialWorlds : List Nat := []
  worlds : Nat → Option SpatialWorld := fun _ => none
  nextWorld : Nat := 0
  universeEntity : Ref := none
  galaxyEntity : Ref := none
  control : Control := .idle
  /-- The history, newest entry first. -/
  history : List Entry := []

namespace SpatialWorld

def isIdle : SpatialWorld → Bool
  | .universe m => decide (m.control = .idle)
  | .galaxy m => decide (m.control = .idle)

def unloading : SpatialWorld → Bool
  | .universe m => m.world.unloading
  | .galaxy m => m.world.unloading

def unload : SpatialWorld → SpatialWorld
  | .universe m => .universe { m with world := { m.world with unloading := true } }
  | .galaxy m => .galaxy { m with world := { m.world with unloading := true } }

end SpatialWorld

def SpatialWorld.nodeCount : SpatialWorld → Nat
  | .universe m => worldGetNodeCount universeType m.world
  | .galaxy m => worldGetNodeCount galaxyType m.world

/-- The references in the `entities` of the stored nodes. -/
def SpatialWorld.entities : SpatialWorld → List Nat
  | .universe m => (List.range universeType.maxScale).flatMap fun s =>
      (m.world.scales s).nodes.entries.flatMap fun entry =>
        match entry.2.bind m.world.heap with
        | some n => n.body.entities.map (·.id)
        | none => []
  | .galaxy _ => []

namespace Simulation

def failed (simulation : Simulation) (f : Fault) : Simulation :=
  { simulation with control := .fault f }

def record (simulation : Simulation) (entry : Entry) : Simulation :=
  { simulation with history := entry :: simulation.history }

/-- Every reference to an entity that is held somewhere. -/
def references (simulation : Simulation) : List Nat :=
  simulation.updatingEntities ++
    (simulation.threadContexts.flatMap fun context =>
      context.loadCommands.reduceOption ++ context.unloadCommands.reduceOption) ++
    simulation.universeEntity.toList ++ simulation.galaxyEntity.toList ++
    (simulation.spatialWorlds.flatMap fun a => ((simulation.worlds a).map (·.entities)).getD [])

end Simulation

/-! ### Requests -/

/-- `GetPoly` (Util/PolyFactory.h:254-275) -/
def getPoly (simulation : Simulation) (id types : Nat) : Simulation :=
  match simulation.entityFactory id with
  | some _ => simulation
  | none => { simulation with
      entityFactory := Function.update simulation.entityFactory id (some { typeId := types ||| 1 }) }

/-- `SimulationCreateEntity` on the thread of the context `i`, called for a node of `world`. -/
def simulationCreateEntity (simulation : Simulation) (i id types : Nat) (world : Option Nat) :
    Simulation :=
  let simulation := getPoly simulation id types
  { simulation with
    threadContexts := simulation.threadContexts.modify i fun context =>
      { context with loadCommands := context.loadCommands ++ [some id] }
    history := .loadRequested id world :: simulation.history }

def simulationUnloadEntity (simulation : Simulation) (i : Nat) (entity : Ref) : Simulation :=
  { simulation with
    threadContexts := simulation.threadContexts.modify i fun context =>
      { context with unloadCommands := context.unloadCommands ++ [entity] }
    history := entity.toList.map .unloadRequested ++ simulation.history }

/-- Write components of a living entity. -/
def modifyEntity (simulation : Simulation) (id : Nat) (f : Entity → Entity) : Simulation :=
  { simulation with
    entityFactory := Function.update simulation.entityFactory id
      ((simulation.entityFactory id).map f) }

/-- `CreateUniverse` and the assignment to `m_universe_entity`. -/
def createUniverse (simulation : Simulation) (i : Nat) : Simulation :=
  let simulation := simulationCreateEntity simulation i universeId kUniverseType none
  let simulation := modifyEntity simulation universeId fun entity =>
    { entity with worldType := .universe }
  { simulation with universeEntity := some universeId }

/-- `CreateSimulatedGalaxy` in the world of `m_universe_entity`, with the assignment to
`m_galaxy_entity`; `id` is what `GenerateUUID` returned. -/
def createSimulatedGalaxy (simulation : Simulation) (i id : Nat) : Simulation :=
  match simulation.universeEntity with
  | none => simulation.failed .nullEntity
  | some entity =>
    let universeWorld := (simulation.entityFactory entity).bind (·.world)
    let simulation := simulationCreateEntity simulation i id kSimulatedGalaxyType none
    let simulation := modifyEntity simulation id fun entity =>
      { entity with worldType := .galaxy, parentWorld := universeWorld }
    { simulation with galaxyEntity := some id }

def disconnectFromUniverse (simulation : Simulation) (i : Nat) : Simulation :=
  simulationUnloadEntity simulation i simulation.universeEntity

/-- The first part of `SimulationUnload` (lines 246-254). -/
def simulationUnload (simulation : Simulation) (i : Nat) : Simulation :=
  simulation.updatingEntities.foldl (fun simulation entity =>
    simulationUnloadEntity simulation i (some entity))
    { simulation with unloading := true, updatingEntities := [] }

/-! ### Callbacks -/

/- `unordered_erase` (Util/Util.h:71-92). References have no comparison of their own and are
   compared as booleans, so the first non-null one is found. -/
def unorderedErase (vector : List Nat) (_item : Nat) : List Nat :=
  match vector with
  | [] => []
  | _ :: rest =>
    match rest.getLast? with
    | none => []
    | some back => back :: rest.dropLast

def onLoadEntity (simulation : Simulation) (entity : Nat) : Simulation :=
  { simulation with updatingEntities := simulation.updatingEntities ++ [entity] }

def onUnloadEntity (simulation : Simulation) (entity : Nat) : Simulation :=
  { simulation with updatingEntities := unorderedErase simulation.updatingEntities entity }

def onLoadUniverseEntity (simulation : Simulation) (entity : Nat) : Simulation :=
  { simulation with universes := simulation.universes ++ [entity] }

def onUnloadUniverseEntity (simulation : Simulation) (entity : Nat) : Simulation :=
  { simulation with universes := unorderedErase simulation.universes entity }

def onLoadGalaxyEntity (simulation : Simulation) (entity : Nat) : Simulation :=
  { simulation with galaxies := simulation.galaxies ++ [entity] }

def onUnloadGalaxyEntity (simulation : Simulation) (entity : Nat) : Simulation :=
  { simulation with galaxies := unorderedErase simulation.galaxies entity }

/-- `CreateWorld` over a database with the given content. -/
def createWorld (type : WorldConstructType) (database : NodeCoord → Option Bytes) : SpatialWorld :=
  match type with
  | .universe => .universe (Spatial3D.initial UniverseNode database)
  | .galaxy => .galaxy (Spatial3D.initial GalaxyNode database)

/-- `OnLoadSpatialEntity`; `CreateWorld` returns null when the database does not open. -/
def onLoadSpatialEntity (database : Option (NodeCoord → Option Bytes)) (simulation : Simulation)
    (id : Nat) (entity : Entity) : Simulation :=
  match database with
  | none => simulation.failed .nullWorld
  | some database =>
    let world := simulation.nextWorld
    let simulation := modifyEntity simulation id fun entity => { entity with world := some world }
    { simulation with
      worlds := Function.update simulation.worlds world
        (some (createWorld entity.worldType database))
      spatialWorlds := simulation.spatialWorlds ++ [world]
      nextWorld := world + 1 }

def onUnloadSpatialEntity (simulation : Simulation) (id : Nat) (entity : Entity) : Simulation :=
  match entity.world with
  | none => simulation.failed .nullWorld
  | some a =>
    match simulation.worlds a with
    | none => simulation.failed .danglingWorld
    | some world =>
      let simulation := modifyEntity simulation id fun entity => { entity with world := none }
      { simulation with worlds := Function.update simulation.worlds a (some world.unload) }

/-- `OnLoadLoaderEntity` and `OnUnloadLoaderEntity`, without the list of loaders. -/
def onLoaderEntity (simulation : Simulation) (entity : Entity) : Simulation :=
  match entity.parentWorld with
  | none => simulation.failed .nullWorld
  | some a => if (simulation.worlds a).isSome then simulation else simulation.failed .danglingWorld

/-- The callbacks of `BeginLoad` for the types of the entity. -/
def beginLoad (database : Option (NodeCoord → Option Bytes)) (simulation : Simulation) (id : Nat)
    (entity : Entity) : Simulation :=
  let simulation := onLoadEntity simulation id
  let simulation :=
    if entity.has [cUniverse] then onLoadUniverseEntity simulation id else simulation
  let simulation := if entity.has [cGalaxy] then onLoadGalaxyEntity simulation id else simulation
  let simulation :=
    if entity.has [cWorld] then onLoadSpatialEntity database simulation id entity else simulation
  if entity.has [cLoader, cEntity] then onLoaderEntity simulation entity else simulation

/-- The callbacks of `BeginUnload`. -/
def beginUnload (simulation : Simulation) (id : Nat) (entity : Entity) : Simulation :=
  let simulation := onUnloadEntity simulation id
  let simulation :=
    if entity.has [cUniverse] then onUnloadUniverseEntity simulation id else simulation
  let simulation := if entity.has [cGalaxy] then onUnloadGalaxyEntity simulation id else simulation
  let simulation :=
    if entity.has [cWorld] then onUnloadSpatialEntity simulation id entity else simulation
  if entity.has [cLoader, cEntity] then onLoaderEntity simulation entity else simulation

/-- `DoEvent` of the entity factory. -/
def doEvent (database : Option (NodeCoord → Option Bytes)) (simulation : Simulation)
    (event : LoadEvent) (ref : Ref) : Simulation :=
  match ref with
  | none => simulation.failed .nullEntity
  | some id =>
    match simulation.entityFactory id with
    | none => simulation.failed .danglingEntity
    | some entity =>
      let simulation := simulation.record (.dispatched event id)
      match event with
      | .beginLoad => beginLoad database simulation id entity
      | .beginUnload => beginUnload simulation id entity

/-! ### `SimulationUpdate` -/

/- The next command in the order of lines 326-341, and the contexts without it. The source
   clears a list after its loop; no callback of the two events adds to one. -/
def popCommand : List ThreadContext → Option ((LoadEvent × Ref) × List ThreadContext)
  | [] => none
  | context :: rest =>
    match context.loadCommands with
    | entity :: loads =>
      some ((.beginLoad, entity), { context with loadCommands := loads } :: rest)
    | [] =>
      match context.unloadCommands with
      | entity :: unloads =>
        some ((.beginUnload, entity), { context with unloadCommands := unloads } :: rest)
      | [] => (popCommand rest).map fun popped => (popped.1, context :: popped.2)

/-- `Cleanup` of the entity factory; an entity without references is destroyed. -/
def cleanup (simulation : Simulation) : Simulation :=
  let references := simulation.references
  { simulation with
    entityFactory := fun id => if id ∈ references then simulation.entityFactory id else none }

/-- `spatial3d::Update`: destroy the worlds that have finished unloading. -/
def spatialUpdate (simulation : Simulation) : Simulation :=
  let finished := fun a =>
    (simulation.worlds a).any fun world => world.unloading && world.nodeCount == 0
  { simulation with
    spatialWorlds := simulation.spatialWorlds.filter fun a => !finished a
    worlds := fun a => if finished a then none else simulation.worlds a }

/-- The galaxies that the callbacks of this step append to the entities of a node. -/
def readRequests (m : State UniverseNode) : Spatial3D.Label UniverseNode → List Galaxy
  | .next _ seed =>
    match polledLoad m with
    | some n =>
      match n.taskState, taskOf m n with
      | .readInProgress, some io =>
        if io.finished then
          (readBody universeType seed n.position n.toBody io).body.entities.drop
            n.body.entities.length
        else []
      | _, _ => []
    | none => []
  | _ => []

/-- A world at address `a` made a step on the thread of the context `i`. -/
def afterUniverseStep (simulation : Simulation) (i a : Nat) (m' : State UniverseNode)
    (requests : List Galaxy) : Simulation :=
  requests.foldl (fun simulation galaxy =>
      simulationCreateEntity simulation i galaxy.id galaxy.typeId (some a))
    { simulation with
      worlds := Function.update simulation.worlds a (some (.universe m'))
      control := if m'.control.isFault then .fault .spatial else simulation.control }

/-- One entity of `ScaleUpdateEntityNodes` moves to the node at `pos'`. -/
def moveEntity (m : State UniverseNode) (s : Nat) (pos pos' : Vector3i) (i : Nat) :
    Option (State UniverseNode) :=
  match (m.world.find s pos).join.bind m.world.heap,
    (m.world.find s pos').join.bind m.world.heap with
  | some n, some n' =>
    match n.body.entities[i]? with
    | some entity =>
      (Spatial3D.step universeType m (.editNode s pos'
        { n'.body with entities := n'.body.entities ++ [entity] })).bind fun m =>
          Spatial3D.step universeType m (.editNode s pos
            { n.body with entities := n.body.entities.eraseIdx i })
    | none => none
  | _, _ => none

inductive Label
  | createUniverse (context : Nat)
  | createSimulatedGalaxy (context id : Nat)
  | disconnectFromUniverse (context : Nat)
  | universeWorld (context a : Nat) (l : Spatial3D.Label UniverseNode)
  | galaxyWorld (a : Nat) (l : Spatial3D.Label GalaxyNode)
  | scaleUpdateEntityNodes (a s : Nat) (pos pos' : Vector3i) (i : Nat)
  | spatialUpdate
  | dispatch
  | next (database : Option (NodeCoord → Option Bytes))
  | simulationUnload (context : Nat)
  | simulationUnloaded

/- The calls of a world that the simulation makes. Background work goes on at any time; a
   simulation that is unloading touches and loads no nodes (Spatial3D/SpatialModule.cpp:136-161). -/
def Simulation.Allows {D : Type} (simulation : Simulation) : Spatial3D.Label D → Prop
  | .touchNode .. => simulation.control = .idle ∧ simulation.unloading = false
  | .worldDoNodeLoadCommands _ => simulation.control = .idle ∧ simulation.unloading = false
  | .editNode .. => False
  | .unloadWorld => False
  | .perform .. => simulation.control = .idle ∨ simulation.control = .dispatching
  | .finish _ => simulation.control = .idle ∨ simulation.control = .dispatching
  | _ => simulation.control = .idle

instance {D : Type} (simulation : Simulation) :
    (l : Spatial3D.Label D) → Decidable (simulation.Allows l)
  | .touchNode .. => inferInstanceAs (Decidable (_ ∧ _))
  | .worldDoNodeLoadCommands _ => inferInstanceAs (Decidable (_ ∧ _))
  | .editNode .. => inferInstanceAs (Decidable False)
  | .unloadWorld => inferInstanceAs (Decidable False)
  | .perform .. => inferInstanceAs (Decidable (_ ∨ _))
  | .finish _ => inferInstanceAs (Decidable (_ ∨ _))
  | .scaleUnloadUnutilizedNodes .. => inferInstanceAs (Decidable (_ = _))
  | .worldDoNodeUnloadCommands => inferInstanceAs (Decidable (_ = _))
  | .next .. => inferInstanceAs (Decidable (_ = _))

/-- Between two tasks of the simulation every world has finished its loops. -/
def Simulation.worldsIdle (simulation : Simulation) : Bool :=
  simulation.spatialWorlds.all fun a => (simulation.worlds a).all (·.isIdle)

/-- The caller may use the context `i`; nobody calls during `SimulationUnload`. -/
def Simulation.Callable (simulation : Simulation) (i : Nat) : Prop :=
  simulation.control = .idle ∧ simulation.unloading = false ∧ i < simulation.threadContexts.length

instance (simulation : Simulation) (i : Nat) : Decidable (simulation.Callable i) :=
  inferInstanceAs (Decidable (_ ∧ _))

/-- One step of a run; `none` when the label is not enabled. -/
def step (simulation : Simulation) : Label → Option Simulation
  | .createUniverse i =>
    if simulation.Callable i then some (createUniverse simulation i) else none
  | .createSimulatedGalaxy i id =>
    if simulation.Callable i then some (createSimulatedGalaxy simulation i id) else none
  | .disconnectFromUniverse i =>
    if simulation.Callable i then some (disconnectFromUniverse simulation i) else none
  | .universeWorld i a l =>
    match simulation.worlds a with
    | some (.universe m) =>
      if simulation.Allows l ∧ i < simulation.threadContexts.length then
        (Spatial3D.step universeType m l).map fun m' =>
          afterUniverseStep simulation i a m' (readRequests m l)
      else none
    | _ => none
  | .galaxyWorld a l =>
    match simulation.worlds a with
    | some (.galaxy m) =>
      if simulation.Allows l then
        (Spatial3D.step galaxyType m l).map fun m' => { simulation with
          worlds := Function.update simulation.worlds a (some (.galaxy m'))
          control := if m'.control.isFault then .fault .spatial else simulation.control }
      else none
    | _ => none
  | .scaleUpdateEntityNodes a s pos pos' i =>
    match simulation.worlds a with
    | some (.universe m) =>
      if simulation.control = .idle ∧ simulation.unloading = false ∧ pos ≠ pos' then
        (moveEntity m s pos pos' i).map fun m' => { simulation with
          worlds := Function.update simulation.worlds a (some (.universe m')) }
      else none
    | _ => none
  | .spatialUpdate =>
    if simulation.control = .idle ∧ simulation.worldsIdle then some (spatialUpdate simulation)
    else none
  | .dispatch =>
    if simulation.control = .idle ∧ simulation.worldsIdle then
      some { simulation with control := .dispatching }
    else none
  | .next database =>
    if simulation.control = .dispatching then
      match popCommand simulation.threadContexts with
      | some ((event, entity), contexts) =>
        some (doEvent database { simulation with threadContexts := contexts } event entity)
      | none => some { cleanup simulation with control := .idle }
    else none
  | .simulationUnload i =>
    if simulation.Callable i ∧ simulation.worldsIdle then some (simulationUnload simulation i)
    else none
  | .simulationUnloaded =>
    if simulation.control = .idle ∧ simulation.unloading = true ∧
        simulation.updatingEntities = [] ∧ simulation.spatialWorlds = [] then
      some { simulation with unloading := false }
    else none

/-- When a step with a label is taken, and the state it leads to. -/
inductive Stepped (s : Simulation) : Label → Simulation → Prop
  | createUniverse {i : Nat} (hc : s.Callable i) :
    Stepped s (.createUniverse i) (createUniverse s i)
  | createSimulatedGalaxy {i id : Nat} (hc : s.Callable i) :
    Stepped s (.createSimulatedGalaxy i id) (createSimulatedGalaxy s i id)
  | disconnectFromUniverse {i : Nat} (hc : s.Callable i) :
    Stepped s (.disconnectFromUniverse i) (disconnectFromUniverse s i)
  | universeWorld {i a : Nat} {l : Spatial3D.Label UniverseNode} {m m' : State UniverseNode}
    (hm : s.worlds a = some (.universe m)) (hl : s.Allows l) (hi : i < s.threadContexts.length)
    (hstep : Spatial3D.step universeType m l = some m') :
    Stepped s (.universeWorld i a l) (afterUniverseStep s i a m' (readRequests m l))
  | galaxyWorld {a : Nat} {l : Spatial3D.Label GalaxyNode} {m m' : State GalaxyNode}
    (hm : s.worlds a = some (.galaxy m)) (hl : s.Allows l)
    (hstep : Spatial3D.step galaxyType m l = some m') :
    Stepped s (.galaxyWorld a l) { s with
      worlds := Function.update s.worlds a (some (.galaxy m'))
      control := if m'.control.isFault then .fault .spatial else s.control }
  | scaleUpdateEntityNodes {a scale : Nat} {pos pos' : Vector3i} {i : Nat} {m m' : State UniverseNode}
    (hm : s.worlds a = some (.universe m)) (hidle : s.control = .idle)
    (hunloading : s.unloading = false) (hne : pos ≠ pos')
    (hmove : moveEntity m scale pos pos' i = some m') :
    Stepped s (.scaleUpdateEntityNodes a scale pos pos' i) { s with
      worlds := Function.update s.worlds a (some (.universe m')) }
  | spatialUpdate (hidle : s.control = .idle) : Stepped s .spatialUpdate (spatialUpdate s)
  | dispatch (hidle : s.control = .idle) : Stepped s .dispatch { s with control := .dispatching }
  | event {database : Option (NodeCoord → Option Bytes)} {event : LoadEvent} {entity : Ref}
    {contexts : List ThreadContext} (hc : s.control = .dispatching)
    (hpop : popCommand s.threadContexts = some ((event, entity), contexts)) :
    Stepped s (.next database)
      (doEvent database { s with threadContexts := contexts } event entity)
  | cleanup {database : Option (NodeCoord → Option Bytes)} (hc : s.control = .dispatching)
    (hpop : popCommand s.threadContexts = none) :
    Stepped s (.next database) { cleanup s with control := .idle }
  | simulationUnload {i : Nat} (hc : s.Callable i) :
    Stepped s (.simulationUnload i) (simulationUnload s i)
  | simulationUnloaded (hidle : s.control = .idle) (hunloading : s.unloading = true)
    (hworlds : s.spatialWorlds = []) : Stepped s .simulationUnloaded { s with unloading := false }

theorem step_stepped {s s' : Simulation} {l : Label} (h : step s l = some s') : Stepped s l s' := by
  cases l with
  | createUniverse i =>
    obtain ⟨hc, heq⟩ := Option.ite_none_right_eq_some.mp h
    cases heq
    exact .createUniverse hc
  | createSimulatedGalaxy i id =>
    obtain ⟨hc, heq⟩ := Option.ite_none_right_eq_some.mp h
    cases heq
    exact .createSimulatedGalaxy hc
  | disconnectFromUniverse i =>
    obtain ⟨hc, heq⟩ := Option.ite_none_right_eq_some.mp h
    cases heq
    exact .disconnectFromUniverse hc
  | universeWorld i a l =>
    simp only [step] at h
    split at h
    · next m hm =>
      obtain ⟨hc, heq⟩ := Option.ite_none_right_eq_some.mp h
      obtain ⟨m', hstep, rfl⟩ := Option.map_eq_some_iff.mp heq
      exact .universeWorld hm hc.1 hc.2 hstep
    · cases h
  | galaxyWorld a l =>
    simp only [step] at h
    split at h
    · next m hm =>
      obtain ⟨hc, heq⟩ := Option.ite_none_right_eq_some.mp h
      obtain ⟨m', hstep, rfl⟩ := Option.map_eq_some_iff.mp heq
      exact .galaxyWorld hm hc hstep
    · cases h
  | scaleUpdateEntityNodes a scale pos pos' i =>
    simp only [step] at h
    split at h
    · next m hm =>
      obtain ⟨hc, heq⟩ := Option.ite_none_right_eq_some.mp h
      obtain ⟨m', hmove, rfl⟩ := Option.map_eq_some_iff.mp heq
      exact .scaleUpdateEntityNodes hm hc.1 hc.2.1 hc.2.2 hmove
    · cases h
  | spatialUpdate =>
    obtain ⟨hc, heq⟩ := Option.ite_none_right_eq_some.mp h
    cases heq
    exact .spatialUpdate hc.1
  | dispatch =>
    obtain ⟨hc, heq⟩ := Option.ite_none_right_eq_some.mp h
    cases heq
    exact .dispatch hc.1
  | next database =>
    obtain ⟨hc, heq⟩ := Option.ite_none_right_eq_some.mp h
    split at heq
    · next event entity contexts hpop =>
      cases heq
      exact .event hc hpop
    · next hpop =>
      cases heq
      exact .cleanup hc hpop
  | simulationUnload i =>
    obtain ⟨hc, heq⟩ := Option.ite_none_right_eq_some.mp h
    cases heq
    exact .simulationUnload hc.1
  | simulationUnloaded =>
    obtain ⟨hc, heq⟩ := Option.ite_none_right_eq_some.mp h
    cases heq
    exact .simulationUnloaded hc.1 hc.2.1 hc.2.2.2

/-- The state after `SimulationInitialize` with this many workers. -/
def initial (workers : Nat) : Simulation :=
  { threadContexts := List.replicate workers {} }

def simulationMachine (workers : Nat) : Library.Machine Simulation Label where
  init simulation := simulation = initial workers
  step := step

end CosmicArchitect.UniverseSimulation
