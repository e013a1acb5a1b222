import CosmicArchitect.Simulation.NodeEntities

/-!
# The living worlds

`spatial_worlds` lists the worlds that live, and each of them is sound. What a step does to the
worlds is a chain of three effects: a world steps, is created, or the finished ones are
destroyed.
-/

namespace CosmicArchitect.UniverseSimulation
open Serialize Spatial3D Universe Relation

def SpatialWorld.Sound : SpatialWorld → Prop
  | .universe m => Spatial3D.Sound universeType Guard.any m.world ∧ m.world.HasRoom
  | .galaxy m => Spatial3D.Sound galaxyType Guard.any m.world ∧ m.world.HasRoom

/-- The worlds at their addresses, and `spatial_worlds`. -/
def Simulation.listedWorlds (s : Simulation) : (Nat → Option SpatialWorld) × List Nat :=
  (s.worlds, s.spatialWorlds)

structure WorldsLive (x : (Nat → Option SpatialWorld) × List Nat) : Prop where
  listed : ∀ a, a ∈ x.2 ↔ (x.1 a).isSome = true
  sound : ∀ a, ∀ world ∈ x.1 a, world.Sound

inductive WorldsEffect : (Nat → Option SpatialWorld) × List Nat →
    (Nat → Option SpatialWorld) × List Nat → Prop
  | replace {worlds : Nat → Option SpatialWorld} {list : List Nat} {a : Nat}
      {world world' : SpatialWorld} : worlds a = some world → (world.Sound → world'.Sound) →
      WorldsEffect (worlds, list) (Function.update worlds a (some world'), list)
  | create {worlds : Nat → Option SpatialWorld} {list : List Nat} (a : Nat)
      (type : WorldConstructType) (database : NodeCoord → Option Bytes) :
      WorldsEffect (worlds, list)
        (Function.update worlds a (some (createWorld type database)), list ++ [a])
  | destroy {worlds : Nat → Option SpatialWorld} {list : List Nat} (finished : Nat → Bool) :
      WorldsEffect (worlds, list)
        (fun a => if finished a then none else worlds a, list.filter fun a => !finished a)

abbrev WorldsEffects := ReflTransGen WorldsEffect

variable {s s' : Simulation}

theorem createWorld_sound (type : WorldConstructType) (database : NodeCoord → Option Bytes) :
    (createWorld type database).Sound := by
  cases type
  · exact ⟨sound_initial universeType Guard.any database, 0, fun _ _ => rfl⟩
  · exact ⟨sound_initial galaxyType Guard.any database, 0, fun _ _ => rfl⟩

theorem SpatialWorld.Sound.unload {world : SpatialWorld} (h : world.Sound) :
    world.unload.Sound := by
  match world with
  | .universe m => exact ⟨unload_sound h.1, h.2⟩
  | .galaxy m => exact ⟨unload_sound h.1, h.2⟩

theorem WorldsLive.effect {x y : (Nat → Option SpatialWorld) × List Nat} (h : WorldsLive x)
    (he : WorldsEffect x y) : WorldsLive y := by
  obtain ⟨hlisted, hsound⟩ := h
  cases he with
  | @replace worlds list a world world' ha hstep =>
    refine ⟨fun b => (hlisted b).trans ?_, fun b other hb => ?_⟩
    · by_cases hba : b = a
      · subst hba
        simp only [Function.update_self, ha, Option.isSome_some]
      · simp only [Function.update_of_ne hba]
    · by_cases hba : b = a
      · subst hba
        simp only [Function.update_self] at hb
        cases hb
        exact hstep (hsound b world ha)
      · simp only [Function.update_of_ne hba] at hb
        exact hsound b other hb
  | @create worlds list a type database =>
    refine ⟨fun b => List.mem_append.trans ?_, fun b other hb => ?_⟩
    · by_cases hba : b = a
      · subst hba
        simp only [Function.update_self, Option.isSome_some, List.mem_singleton, or_true]
      · simp only [Function.update_of_ne hba, List.mem_singleton, hba, or_false]
        exact hlisted b
    · by_cases hba : b = a
      · subst hba
        simp only [Function.update_self] at hb
        cases hb
        exact createWorld_sound type database
      · simp only [Function.update_of_ne hba] at hb
        exact hsound b other hb
  | @destroy worlds list finished =>
    refine ⟨fun b => List.mem_filter.trans ?_, fun b other hb => ?_⟩
    · cases hfinished : finished b with
      | false => simpa only [hfinished, Bool.not_false, and_true, Bool.false_eq_true, if_false]
          using hlisted b
      | true => simp only [hfinished, Bool.not_true, Bool.false_eq_true, and_false, if_true,
          Option.isSome_none]
    · simp only at hb
      split at hb
      · cases hb
      · exact hsound b other hb

theorem WorldsLive.effects {x y : (Nat → Option SpatialWorld) × List Nat} (h : WorldsLive x)
    (he : WorldsEffects x y) : WorldsLive y := by
  induction he with
  | refl => exact h
  | tail _ he ih => exact ih.effect he

/-! ### Effects of a step -/

theorem simulationCreateEntity_listed (s : Simulation) (i id types : Nat) (world : Option Nat) :
    (simulationCreateEntity s i id types world).listedWorlds = s.listedWorlds := by
  simp only [Simulation.listedWorlds, simulationCreateEntity, getPoly]
  split <;> rfl

theorem requests_listed (i : Nat) (world : Option Nat) (requests : List Galaxy) :
    ∀ s : Simulation, (requests.foldl (fun simulation galaxy =>
      simulationCreateEntity simulation i galaxy.id galaxy.typeId world) s).listedWorlds =
        s.listedWorlds := by
  induction requests with
  | nil => exact fun s => rfl
  | cons galaxy requests ih =>
    exact fun s => (ih _).trans (simulationCreateEntity_listed s i galaxy.id galaxy.typeId world)

theorem unloads_listed (i : Nat) (entities : List Nat) :
    ∀ s : Simulation, (entities.foldl (fun simulation entity =>
      simulationUnloadEntity simulation i (some entity)) s).listedWorlds = s.listedWorlds := by
  induction entities with
  | nil => exact fun s => rfl
  | cons entity entities ih => exact fun s => ih _

theorem createSimulatedGalaxy_listed (s : Simulation) (i id : Nat) :
    (createSimulatedGalaxy s i id).listedWorlds = s.listedWorlds := by
  unfold createSimulatedGalaxy
  split
  · rfl
  · exact simulationCreateEntity_listed s i id kSimulatedGalaxyType none

theorem onLoaderEntity_listed (s : Simulation) (entity : Entity) :
    (onLoaderEntity s entity).listedWorlds = s.listedWorlds := by
  unfold onLoaderEntity
  split
  · rfl
  · split <;> rfl

theorem onLoadSpatialEntity_effects (database : Option (NodeCoord → Option Bytes))
    (s : Simulation) (id : Nat) (entity : Entity) :
    WorldsEffects s.listedWorlds (onLoadSpatialEntity database s id entity).listedWorlds := by
  cases database with
  | none => exact .refl
  | some database => exact .single (.create s.nextWorld entity.worldType database)

theorem onUnloadSpatialEntity_effects (s : Simulation) (id : Nat) (entity : Entity) :
    WorldsEffects s.listedWorlds (onUnloadSpatialEntity s id entity).listedWorlds := by
  unfold onUnloadSpatialEntity
  split
  · exact .refl
  · split
    · exact .refl
    · next world hworld => exact .single (.replace hworld SpatialWorld.Sound.unload)

/-- The spatial callback and the loader callback behind those that touch no world. -/
theorem callbacks_effects {t : Simulation} (f : Simulation → Simulation) (b b' : Bool)
    (entity : Entity) (ht : t.listedWorlds = s.listedWorlds)
    (hf : WorldsEffects t.listedWorlds (f t).listedWorlds) :
    WorldsEffects s.listedWorlds
      (let s := if b then f t else t
       if b' then onLoaderEntity s entity else s).listedWorlds := by
  have hlisted : ∀ s : Simulation,
      (if b' then onLoaderEntity s entity else s).listedWorlds = s.listedWorlds := by
    intro s
    cases b'
    · rfl
    · exact onLoaderEntity_listed s entity
  show WorldsEffects _ (if b' then onLoaderEntity _ entity else _).listedWorlds
  rw [hlisted, ← ht]
  cases b
  · exact .refl
  · exact hf

theorem beginLoad_effects (database : Option (NodeCoord → Option Bytes)) (s : Simulation)
    (id : Nat) (entity : Entity) :
    WorldsEffects s.listedWorlds (beginLoad database s id entity).listedWorlds := by
  have hlists :
      (let s := onLoadEntity s id
       let s := if entity.has [cUniverse] then onLoadUniverseEntity s id else s
       if entity.has [cGalaxy] then onLoadGalaxyEntity s id else s).listedWorlds =
        s.listedWorlds := by
    cases entity.has [cUniverse] <;> cases entity.has [cGalaxy] <;> rfl
  exact callbacks_effects (fun s => onLoadSpatialEntity database s id entity) _ _ entity hlists
    (onLoadSpatialEntity_effects database _ id entity)

theorem beginUnload_effects (s : Simulation) (id : Nat) (entity : Entity) :
    WorldsEffects s.listedWorlds (beginUnload s id entity).listedWorlds := by
  have hlists :
      (let s := onUnloadEntity s id
       let s := if entity.has [cUniverse] then onUnloadUniverseEntity s id else s
       if entity.has [cGalaxy] then onUnloadGalaxyEntity s id else s).listedWorlds =
        s.listedWorlds := by
    cases entity.has [cUniverse] <;> cases entity.has [cGalaxy] <;> rfl
  exact callbacks_effects (fun s => onUnloadSpatialEntity s id entity) _ _ entity hlists
    (onUnloadSpatialEntity_effects _ id entity)

theorem doEvent_effects (database : Option (NodeCoord → Option Bytes)) (s : Simulation)
    (event : LoadEvent) (ref : Ref) :
    WorldsEffects s.listedWorlds (doEvent database s event ref).listedWorlds := by
  unfold doEvent
  split
  · exact .refl
  · split
    · exact .refl
    · next id _ entity _ =>
      cases event with
      | beginLoad => exact beginLoad_effects database (s.record (.dispatched .beginLoad id)) id entity
      | beginUnload => exact beginUnload_effects (s.record (.dispatched .beginUnload id)) id entity

theorem step_worldsEffects {l : Label} (h : step s l = some s') :
    WorldsEffects s.listedWorlds s'.listedWorlds := by
  cases step_stepped h with
  | @createUniverse i hc =>
    rw [show (createUniverse s i).listedWorlds = s.listedWorlds from
      simulationCreateEntity_listed s i universeId kUniverseType none]
  | createSimulatedGalaxy hc => rw [createSimulatedGalaxy_listed]
  | disconnectFromUniverse hc => exact .refl
  | universeWorld hm hl hi hstep =>
    rw [afterUniverseStep, requests_listed]
    exact .single (.replace hm fun hs => ⟨step_sound hs.1 hstep, step_hasRoom hs.1 hs.2 hstep⟩)
  | galaxyWorld hm hl hstep =>
    exact .single (.replace hm fun hs => ⟨step_sound hs.1 hstep, step_hasRoom hs.1 hs.2 hstep⟩)
  | scaleUpdateEntityNodes hm hidle hunloading hne hmove =>
    obtain ⟨m₁, l, l', hfirst, hsecond⟩ := moveEntity_steps hmove
    refine .single (.replace hm fun hs => ?_)
    have hs₁ := step_sound hs.1 hfirst
    exact ⟨step_sound hs₁ hsecond, step_hasRoom hs₁ (step_hasRoom hs.1 hs.2 hfirst) hsecond⟩
  | spatialUpdate hidle => exact .single (.destroy _)
  | dispatch hidle => exact .refl
  | @event database event ref contexts hc hpop =>
    exact doEvent_effects database { s with threadContexts := contexts } event ref
  | cleanup hc hpop => exact .refl
  | simulationUnload hc =>
    rw [simulationUnload, unloads_listed]
    exact .refl
  | simulationUnloaded hidle hunloading hworlds => exact .refl

theorem worldsLive_of_reachable {workers : Nat} (h : (simulationMachine workers).Reachable s) :
    WorldsLive s.listedWorlds := by
  refine h.invariant (I := fun s => WorldsLive s.listedWorlds) ?_ ?_
  · rintro s rfl
    refine ⟨fun a => ?_, fun a world hworld => by cases hworld⟩
    simp only [Simulation.listedWorlds, initial, List.not_mem_nil, Option.isSome_none,
      Bool.false_eq_true]
  · exact fun s l s' _ hs _ hstep => hs.effects (step_worldsEffects hstep)

end CosmicArchitect.UniverseSimulation
