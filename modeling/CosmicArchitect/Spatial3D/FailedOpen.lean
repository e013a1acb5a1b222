import CosmicArchitect.Spatial3D.Registration
import CosmicArchitect.Spatial3D.World

/-!
# A world that fails to open (Spatial3D/SpatialWorld.cpp:247-330, SpatialModule.cpp:45-63)

The load of a spatial entity again, with the status that opening the database returns. The lists hold
what `CreateWorld` returned, which may be a null pointer, and a null pointer may be dereferenced.
-/

namespace CosmicArchitect.Spatial3D.Registration.FailedOpen

/-- `k_max_world_scale`, the length of `World::scales`. -/
def kMaxWorldScale : Nat := 16

/-- A `SpatialTypeData`; `localWorld` says whether its world type has `LocalWorld`. -/
structure TypeData where
  maxScale : Nat := kMaxWorldScale
  localWorld : Bool := true
  worlds : List (Option Nat) := []
  scales : List Nat := []
  bound : maxScale ≤ kMaxWorldScale := by decide

/-- A `Registration.Simulation` whose lists of worlds may hold a null pointer. -/
@[ext]
structure State where
  spatialWorlds : List (Option Nat) := []
  spatialScales : List Nat := []
  types : WorldConstructType → TypeData := fun _ => {}
  worlds : Nat → Option World := fun _ => none
  scales : Nat → Option Scale := fun _ => none
  entities : Nat → Option Nat := fun _ => none
  created : Nat := 0
  destroyed : List Nat := []

inductive Fault
  | nullPointer
  | freedPointer
deriving DecidableEq, Repr

/-- The state behind a call, or where it faulted. -/
structure Result where
  state : State
  fault : Option Fault := none

def Result.andThen (r : Result) (f : State → Result) : Result :=
  match r.fault with
  | none => f r.state
  | some _ => r

namespace State

def modifyType (s : State) (type : WorldConstructType) (f : TypeData → TypeData) : State :=
  { s with types := Function.update s.types type (f (s.types type)) }

def worldForEachScale (s : State) (world : Option Nat) (callback : State → Nat → State) : Result :=
  match world with
  | none => { state := s, fault := some .nullPointer }
  | some a =>
    match s.worlds a with
    | none => { state := s, fault := some .freedPointer }
    | some w => { state := w.scales.foldl callback s }

/-- `world_type.CreatePoly` with the fields that `CreateWorld` sets at once. -/
def createPoly (s : State) (type : WorldConstructType) (a : Nat) : State :=
  { s with
    worlds := Function.update s.worlds a (some { type := type, scales := [], serial := s.created })
    created := s.created + 1 }

/-- A turn of the loop over `scale_index`; the scale is at address `x`. -/
def createScale (s : State) (a scaleIndex x : Nat) : State :=
  { s with
    scales := Function.update s.scales x (some { world := a, index := scaleIndex })
    worlds := Function.update s.worlds a
      ((s.worlds a).map fun world => { world with scales := world.scales ++ [x] }) }

def createScales (s : State) (a : Nat) (address : Nat → Nat) : Nat → State
  | 0 => s
  | scaleIndex + 1 =>
    (createScales s a address scaleIndex).createScale a scaleIndex (address scaleIndex)

def destroyScale (s : State) (x : Nat) : State :=
  { s with scales := Function.update s.scales x none }

def destroyPoly (s : State) (a : Nat) : State :=
  { s with
    worlds := Function.update s.worlds a none
    destroyed := s.destroyed ++ ((s.worlds a).map World.serial).toList }

def destroyWorld (s : State) (a : Nat) : Result :=
  (s.worldForEachScale (some a) destroyScale).andThen fun s => { state := s.destroyPoly a }

/-- `CreateWorld`, with the pointer it returns; `address` gives the addresses of the scales and
`status` is what `OpenAdvanced` returns. -/
def createWorld (s : State) (type : WorldConstructType) (a : Nat) (address : Nat → Nat)
    (status : Status) : Result × Option Nat :=
  let s := s.createPoly type a
  let s := s.createScales a address (s.types type).maxScale
  if (s.types type).localWorld ∧ status ≠ .success then (s.destroyWorld a, none)
  else ({ state := s }, some a)

/-- What `OnLoadSpatialEntity` does with the pointer it got. -/
def registerWorld (s : State) (entity : Nat) (type : WorldConstructType) (world : Option Nat) :
    Result :=
  let s := { s with
    entities := Function.update s.entities entity world
    spatialWorlds := s.spatialWorlds ++ [world] }
  let s := s.modifyType type fun data => { data with worlds := data.worlds ++ [world] }
  s.worldForEachScale world fun s scale =>
    { s with spatialScales := s.spatialScales ++ [scale] }.modifyType type
      fun data => { data with scales := data.scales ++ [scale] }

def onLoadSpatialEntity (s : State) (entity : Nat) (type : WorldConstructType) (a : Nat)
    (address : Nat → Nat) (status : Status) : Result :=
  (s.createWorld type a address status).1.andThen fun s' =>
    s'.registerWorld entity type (s.createWorld type a address status).2

/-- The addresses of the scales of a new world, by `scale_index`. -/
def newScales (s : State) (type : WorldConstructType) (address : Nat → Nat) : List Nat :=
  (List.range (s.types type).maxScale).map address

end State

/-- The addresses are free. -/
def Free (s : State) (type : WorldConstructType) (a : Nat) (address : Nat → Nat) : Prop :=
  s.worlds a = none ∧ (s.newScales type address).Nodup ∧
    ∀ x ∈ s.newScales type address, s.scales x = none

instance (s : State) (type : WorldConstructType) (a : Nat) (address : Nat → Nat) :
    Decidable (Free s type a address) :=
  inferInstanceAs (Decidable (_ ∧ _ ∧ _))

/-! ### `CreateWorld` -/

section
variable (s : State) (a : Nat) (address : Nat → Nat)

theorem createScale_worlds (i x : Nat) : (s.createScale a i x).worlds = Function.update s.worlds a
    ((s.worlds a).map fun world => { world with scales := world.scales ++ [x] }) := rfl

theorem createScale_scales (i x : Nat) : (s.createScale a i x).scales =
    Function.update s.scales x (some { world := a, index := i }) := rfl

theorem createScales_worlds (n : Nat) : (s.createScales a address n).worlds =
    Function.update s.worlds a ((s.worlds a).map fun world =>
      { world with scales := world.scales ++ (List.range n).map address }) := by
  induction n with
  | zero =>
    cases ha : s.worlds a with
    | none => exact (Function.update_eq_self_iff.mpr ha.symm).symm
    | some world => simp [State.createScales, ← ha]
  | succ n ih =>
    rw [State.createScales, createScale_worlds, ih, Function.update_idem, Function.update_self,
      Option.map_map]
    congr 1
    refine Option.map_congr fun world _ => ?_
    rw [Function.comp_apply, List.range_succ, List.map_append, List.append_assoc, List.map_singleton]

/-- The scale of `scaleIndex` is at its address. -/
theorem createScales_new {n : Nat} (hnodup : ((List.range n).map address).Nodup) {i : Nat}
    (hi : i < n) :
    (s.createScales a address n).scales (address i) = some { world := a, index := i } := by
  induction n with
  | zero => exact absurd hi (Nat.not_lt_zero i)
  | succ n ih =>
    rw [List.range_succ, List.map_append, List.nodup_append] at hnodup
    rw [State.createScales, createScale_scales]
    by_cases hlast : i = n
    · rw [hlast]
      exact Function.update_self ..
    · have hne : address i ≠ address n :=
        hnodup.2.2 _ (List.mem_map_of_mem (List.mem_range.mpr (by omega))) _ (by simp)
      rw [Function.update_of_ne hne]
      exact ih hnodup.1 (by omega)

theorem createScales_other {n x : Nat} (hx : x ∉ (List.range n).map address) :
    (s.createScales a address n).scales x = s.scales x := by
  induction n with
  | zero => rfl
  | succ n ih =>
    rw [List.range_succ, List.map_append, List.mem_append, not_or] at hx
    rw [State.createScales, createScale_scales,
      Function.update_of_ne fun heq => hx.2 (by simp [heq])]
    exact ih hx.1

/-- The loop writes scales and the world they are in. -/
theorem createScales_frame (n : Nat) : s.createScales a address n =
    { s with
      worlds := (s.createScales a address n).worlds
      scales := (s.createScales a address n).scales } := by
  induction n with
  | zero => rfl
  | succ n ih =>
    rw [State.createScales, State.createScale, ih]

theorem destroyScale_foldl (l : List Nat) : l.foldl State.destroyScale s =
    { s with scales := fun x => if x ∈ l then none else s.scales x } := by
  induction l generalizing s with
  | nil => simp
  | cons y l ih =>
    rw [List.foldl_cons, ih, State.destroyScale]
    congr 1
    funext x
    by_cases hx : x ∈ l
    · simp [hx]
    · by_cases hxy : x = y
      · simp [hxy]
      · simp [hx, hxy]

end

section
variable {s : State} {type : WorldConstructType} {a : Nat} {address : Nat → Nat} {status : Status}

theorem onLoadSpatialEntity_eq (entity : Nat) {s' : State} {world : Option Nat}
    (h : s.createWorld type a address status = ({ state := s' }, world)) :
    s.onLoadSpatialEntity entity type a address status = s'.registerWorld entity type world := by
  rw [State.onLoadSpatialEntity, h]
  rfl

theorem createWorld_null_iff : (s.createWorld type a address status).2 = none ↔
    (s.types type).localWorld = true ∧ status ≠ .success := by
  have htypes : ((s.createPoly type a).createScales a address
      ((s.createPoly type a).types type).maxScale).types = s.types := by
    rw [createScales_frame]
    rfl
  rw [State.createWorld]
  simp only [htypes]
  split
  next h => exact iff_of_true rfl h
  next h => exact iff_of_false (by simp) h

theorem destroyWorld_eq {world : World} (ha : s.worlds a = some world) :
    s.destroyWorld a = { state :=
      { s with
        scales := fun x => if x ∈ world.scales then none else s.scales x
        worlds := Function.update s.worlds a none
        destroyed := s.destroyed ++ [world.serial] } } := by
  rw [State.destroyWorld, State.worldForEachScale, ha]
  simp only [Result.andThen, destroyScale_foldl, State.destroyPoly, ha, Option.map_some,
    Option.toList_some]

theorem createPoly_worlds (s : State) (type : WorldConstructType) (a : Nat) :
    (s.createPoly type a).worlds =
      Function.update s.worlds a (some { type := type, scales := [], serial := s.created }) := rfl

/-- The world that `CreateWorld` has built when it opens the database. -/
theorem createdWorld (s : State) (type : WorldConstructType) (a : Nat) (address : Nat → Nat) :
    ((s.createPoly type a).createScales a address (s.types type).maxScale).worlds =
      Function.update s.worlds a
        (some { type := type, scales := s.newScales type address, serial := s.created }) := by
  rw [createScales_worlds, createPoly_worlds, Function.update_self, Function.update_idem]
  rfl

/-- After a failed open the world and its scales are gone. -/
theorem createWorld_failed (hfree : Free s type a address)
    (hfail : (s.createWorld type a address status).2 = none) :
    s.createWorld type a address status = ({ state :=
      { s with created := s.created + 1, destroyed := s.destroyed ++ [s.created] } }, none) := by
  have hopen := createWorld_null_iff.mp hfail
  have hframe := createScales_frame (s.createPoly type a) a address (s.types type).maxScale
  have hworlds := createdWorld s type a address
  have hscales : ∀ x, (if x ∈ s.newScales type address then none else
      ((s.createPoly type a).createScales a address (s.types type).maxScale).scales x) =
      s.scales x := by
    intro x
    split
    next hx => exact (hfree.2.2 x hx).symm
    next hx => exact createScales_other (s.createPoly type a) a address hx
  have hsome : ((s.createPoly type a).createScales a address (s.types type).maxScale).worlds a =
      some { type := type, scales := s.newScales type address, serial := s.created } := by
    rw [hworlds, Function.update_self]
  have hnone : Function.update s.worlds a none = s.worlds := by
    rw [← hfree.1, Function.update_eq_self]
  rw [State.createWorld]
  have htypes : ((s.createPoly type a).createScales a address (s.types type).maxScale).types =
      s.types := by
    rw [hframe]
    rfl
  rw [show (s.createPoly type a).types = s.types from rfl]
  simp only [htypes]
  rw [if_pos hopen, destroyWorld_eq hsome]
  simp only [hscales, hworlds, Function.update_idem, hnone]
  rw [hframe]
  rfl

end

/-! ### What a failed open leaves -/

/-- The lists are what they were, no null pointer was registered or dereferenced, and the scales that
were created are destroyed. -/
structure LeavesNoTrace (s : State) (type : WorldConstructType) (address : Nat → Nat) (r : Result) :
    Prop where
  spatialWorlds : r.state.spatialWorlds = s.spatialWorlds
  spatialScales : r.state.spatialScales = s.spatialScales
  typeWorlds : (r.state.types type).worlds = (s.types type).worlds
  typeScales : (r.state.types type).scales = (s.types type).scales
  registered : r.state.spatialWorlds.count none = s.spatialWorlds.count none
  dereferenced : r.fault ≠ some .nullPointer
  destroyed : ∀ x ∈ s.newScales type address, r.state.scales x = none

/-- The null pointer is registered as a world and dereferenced; only the scales are as they should. -/
structure RegistersNull (s : State) (entity : Nat) (type : WorldConstructType) (r : Result) :
    Prop where
  spatialWorlds : r.state.spatialWorlds = s.spatialWorlds ++ [none]
  typeWorlds : (r.state.types type).worlds = (s.types type).worlds ++ [none]
  entity : r.state.entities entity = none
  fault : r.fault = some .nullPointer
  spatialScales : r.state.spatialScales = s.spatialScales
  typeScales : (r.state.types type).scales = (s.types type).scales
  worlds : r.state.worlds = s.worlds
  scales : r.state.scales = s.scales

section
variable {s : State} {type : WorldConstructType} {a : Nat} {address : Nat → Nat} {status : Status}

theorem modifyType_self (f : TypeData → TypeData) :
    (s.modifyType type f).types type = f (s.types type) := Function.update_self ..

theorem modifyType_worlds (f : TypeData → TypeData) :
    (s.modifyType type f).worlds = s.worlds := rfl

theorem onLoadSpatialEntity_failed (entity : Nat) (hfree : Free s type a address)
    (hfail : (s.createWorld type a address status).2 = none) :
    RegistersNull s entity type (s.onLoadSpatialEntity entity type a address status) := by
  rw [onLoadSpatialEntity_eq entity (createWorld_failed hfree hfail)]
  simp only [State.registerWorld, State.worldForEachScale]
  constructor
  · rfl
  · rw [modifyType_self]
  · exact Function.update_self ..
  · rfl
  · rfl
  · rw [modifyType_self]
  · rfl
  · rfl

theorem RegistersNull.not_leavesNoTrace {entity : Nat} {r : Result}
    (h : RegistersNull s entity type r) : ¬ LeavesNoTrace s type address r :=
  fun hclean => hclean.dereferenced h.fault

end

/-- In every state, whatever the number of scales, a failed open leaves a trace. -/
theorem failed_open_leaves_trace (s : State) (entity : Nat) (type : WorldConstructType) (a : Nat)
    (address : Nat → Nat) (status : Status) (hfree : Free s type a address)
    (hfail : (s.createWorld type a address status).2 = none) :
    ¬ LeavesNoTrace s type address (s.onLoadSpatialEntity entity type a address status) ∧
      RegistersNull s entity type (s.onLoadSpatialEntity entity type a address status) := by
  have hnull := onLoadSpatialEntity_failed entity hfree hfail
  exact ⟨hnull.not_leavesNoTrace, hnull⟩

/-- A planet of three scales beside a world that is open. -/
def onePlanet : State :=
  { spatialWorlds := [some 0], spatialScales := [0]
    types := fun type =>
      if type = .planet then { maxScale := 3 } else { maxScale := 1, worlds := [some 0], scales := [0] }
    worlds := fun a => if a = 0 then some { type := .universe, scales := [0], serial := 0 } else none
    scales := fun x => if x = 0 then some { world := 0, index := 0 } else none
    created := 1 }

theorem failed_open_leaves_trace_onePlanet :
    ¬ LeavesNoTrace onePlanet .planet (· + 1)
        (onePlanet.onLoadSpatialEntity 7 .planet 1 (· + 1) .permissionError) ∧
      RegistersNull onePlanet 7 .planet
        (onePlanet.onLoadSpatialEntity 7 .planet 1 (· + 1) .permissionError) :=
  failed_open_leaves_trace onePlanet 7 .planet 1 (· + 1) .permissionError (by decide) (by decide)

/-- The planet's database cannot be opened: the null pointer is in the lists and is dereferenced. -/
theorem failed_open_dereferences_null :
    Free onePlanet .planet 1 (· + 1) ∧
      (onePlanet.createWorld .planet 1 (· + 1) .permissionError).2 = none ∧
      (onePlanet.onLoadSpatialEntity 7 .planet 1 (· + 1) .permissionError).state.spatialWorlds =
        [some 0, none] ∧
      ¬ LeavesNoTrace onePlanet .planet (· + 1)
        (onePlanet.onLoadSpatialEntity 7 .planet 1 (· + 1) .permissionError) :=
  ⟨by decide, by decide, by decide, fun h => h.dereferenced (by decide)⟩

/-! ### The open that succeeds is the load of the registered worlds -/

/-- The registered worlds with `config` for what the types are made of. -/
def ofSimulation (config : WorldConstructType → TypeData) (s : Simulation) : State :=
  { spatialWorlds := s.spatialWorlds.map some, spatialScales := s.spatialScales
    types := fun type => { config type with
      worlds := (s.types type).worlds.map some, scales := (s.types type).scales }
    worlds := s.worlds, scales := s.scales, entities := s.entities
    created := s.created, destroyed := s.destroyed }

theorem ofSimulation_spatialWorlds (config : WorldConstructType → TypeData) (s : Simulation) :
    (ofSimulation config s).spatialWorlds = s.spatialWorlds.map some := rfl

theorem ofSimulation_types (config : WorldConstructType → TypeData) (s : Simulation)
    (type : WorldConstructType) : (ofSimulation config s).types type =
      { config type with
        worlds := (s.types type).worlds.map some, scales := (s.types type).scales } := rfl

section
variable {s : State} {type : WorldConstructType} {a : Nat} {address : Nat → Nat} {status : Status}

theorem createdScales (s : State) (type : WorldConstructType) (a : Nat) (address : Nat → Nat)
    (hnodup : (s.newScales type address).Nodup) (x : Nat) :
    ((s.createPoly type a).createScales a address (s.types type).maxScale).scales x =
      if x ∈ s.newScales type address then
        some { world := a, index := (s.newScales type address).idxOf x }
      else s.scales x := by
  split
  next hx =>
    obtain ⟨i, hi, rfl⟩ := List.mem_map.mp hx
    have hindex : (s.newScales type address)[i]? = some (address i) := by
      rw [State.newScales, List.getElem?_map, List.getElem?_range (List.mem_range.mp hi)]
      rfl
    obtain ⟨hlt, heq⟩ := List.getElem?_eq_some_iff.mp hindex
    rw [createScales_new _ _ _ hnodup (List.mem_range.mp hi), ← heq, hnodup.idxOf_getElem]
  next hx => exact createScales_other _ _ _ hx

theorem createWorld_opened (hnodup : (s.newScales type address).Nodup)
    (hopen : (s.types type).localWorld = true → status = .success) :
    s.createWorld type a address status = ({ state :=
      { s with
        worlds := Function.update s.worlds a
          (some { type := type, scales := s.newScales type address, serial := s.created })
        scales := fun x => if x ∈ s.newScales type address then
            some { world := a, index := (s.newScales type address).idxOf x } else s.scales x
        created := s.created + 1 } }, some a) := by
  have hframe := createScales_frame (s.createPoly type a) a address (s.types type).maxScale
  rw [createdWorld, funext (createdScales s type a address hnodup)] at hframe
  have hnot : ¬ ((s.types type).localWorld = true ∧ status ≠ .success) :=
    fun h => h.2 (hopen h.1)
  rw [State.createWorld, show (s.createPoly type a).types = s.types from rfl]
  simp only [hframe]
  exact if_neg hnot

/-- The two pushes for each scale. -/
theorem pushScales (l : List Nat) (s : State) : l.foldl (fun s scale =>
    { s with spatialScales := s.spatialScales ++ [scale] }.modifyType type
      fun data => { data with scales := data.scales ++ [scale] }) s =
    { s with spatialScales := s.spatialScales ++ l }.modifyType type
      fun data => { data with scales := data.scales ++ l } := by
  induction l generalizing s with
  | nil => simp [State.modifyType]
  | cons x l ih =>
    rw [List.foldl_cons, ih]
    simp [State.modifyType]

theorem registerWorld_some (entity : Nat) {world : World} (ha : s.worlds a = some world) :
    s.registerWorld entity type (some a) = { state :=
      { s with
        entities := Function.update s.entities entity (some a)
        spatialWorlds := s.spatialWorlds ++ [some a]
        spatialScales := s.spatialScales ++ world.scales
        types := Function.update s.types type
          { s.types type with
            worlds := (s.types type).worlds ++ [some a]
            scales := (s.types type).scales ++ world.scales } } } := by
  rw [State.registerWorld]
  simp only [State.worldForEachScale, modifyType_worlds, ha, pushScales]
  simp only [State.modifyType, Function.update_self, Function.update_idem]

end

theorem onLoadSpatialEntity_opened (config : WorldConstructType → TypeData) (s : Simulation)
    (entity : Nat) (type : WorldConstructType) (a : Nat) (address : Nat → Nat) (status : Status)
    (hfree : Free (ofSimulation config s) type a address)
    (hopen : (config type).localWorld = true → status = .success) :
    (ofSimulation config s).onLoadSpatialEntity entity type a address status =
      { state := ofSimulation config (s.onLoadSpatialEntity entity type a
          ((ofSimulation config s).newScales type address)) } := by
  have hl := onLoadSpatialEntity_loaded s entity type a
    ((ofSimulation config s).newScales type address)
  rw [onLoadSpatialEntity_eq entity (createWorld_opened hfree.2.1 hopen),
    registerWorld_some entity (Function.update_self ..)]
  refine congrArg (Result.mk · none) (State.ext ?_ rfl (funext fun t => ?_) rfl rfl rfl rfl rfl)
  · simp only [ofSimulation_spatialWorlds, hl.spatialWorlds, List.map_append, List.map_singleton]
  · dsimp only
    by_cases ht : t = type
    · subst ht
      simp only [Function.update_self, ofSimulation_types, hl.ofType, List.map_append,
        List.map_singleton]
    · simp only [Function.update_of_ne ht, ofSimulation_types, hl.otherType t ht]

end CosmicArchitect.Spatial3D.Registration.FailedOpen
