import Mathlib.Logic.Function.Basic
import Mathlib.Algebra.Ring.Nat
import Mathlib.Data.List.Nodup
import CosmicArchitect.Library.Machine
import CosmicArchitect.Library.UnorderedErase

/-!
# The registered worlds (Spatial3D/SpatialModule.cpp:45-134)

Loading a spatial entity creates a world and enters it and its scales in the lists of the
simulation and of its type; `Update` takes the worlds out again that have finished unloading. Worlds
and scales stand behind addresses that may be used again once they are freed. Of a scale only the
number of its nodes matters here, which the other updates change.
-/

namespace CosmicArchitect.Spatial3D.Registration
open Library

inductive WorldConstructType
  | universe
  | galaxy
  | starSystem
  | planet
  | spaceStation
  | spaceShip
  | vehicle
deriving DecidableEq, Repr

/-- The seven types of a simulation, by `GetType`. -/
def constructTypes : List WorldConstructType :=
  [.universe, .galaxy, .starSystem, .planet, .spaceStation, .spaceShip, .vehicle]

/-- The lists of a `SpatialTypeData`. -/
structure SpatialTypeData where
  worlds : List Nat := []
  scales : List Nat := []
deriving DecidableEq, Repr

/-- A world with its scales. No function reads `serial`, which tells worlds at the same address
apart. -/
structure World where
  type : WorldConstructType
  scales : List Nat
  unloading : Bool := false
  serial : Nat
deriving DecidableEq, Repr

/-- A scale, with the size of its `nodes`. -/
structure Scale where
  world : Nat
  index : Nat
  nodes : Nat := 0
deriving DecidableEq, Repr

/-- `entities` holds `CWorld::world`; `destroyed` and `created` are the history of worlds. -/
structure Simulation where
  spatialWorlds : List Nat := []
  spatialScales : List Nat := []
  types : WorldConstructType → SpatialTypeData := fun _ => {}
  worlds : Nat → Option World := fun _ => none
  scales : Nat → Option Scale := fun _ => none
  entities : Nat → Option Nat := fun _ => none
  created : Nat := 0
  destroyed : List Nat := []

namespace Simulation

def modifyType (s : Simulation) (type : WorldConstructType)
    (f : SpatialTypeData → SpatialTypeData) : Simulation :=
  { s with types := Function.update s.types type (f (s.types type)) }

/-- `CreateWorld` at the given addresses. -/
def createWorld (s : Simulation) (type : WorldConstructType) (a : Nat) (scales : List Nat) :
    Simulation :=
  { s with
    worlds := Function.update s.worlds a (some { type := type, scales := scales, serial := s.created })
    scales := fun x => if x ∈ scales then some { world := a, index := scales.idxOf x } else s.scales x
    created := s.created + 1 }

/-- `OnLoadSpatialEntity` for an entity with this `CWorld::type`. -/
def onLoadSpatialEntity (s : Simulation) (entity : Nat) (type : WorldConstructType) (a : Nat)
    (scales : List Nat) : Simulation :=
  let s := s.createWorld type a scales
  let s := { s with
    entities := Function.update s.entities entity (some a)
    spatialWorlds := s.spatialWorlds ++ [a]
    spatialScales := s.spatialScales ++ scales }
  s.modifyType type fun data =>
    { worlds := data.worlds ++ [a], scales := data.scales ++ scales }

/-- `OnUnloadSpatialEntity`; `none` when `CWorld::world` does not point to a world. -/
def onUnloadSpatialEntity (s : Simulation) (entity : Nat) : Option Simulation :=
  (s.entities entity).bind fun a => (s.worlds a).map fun world =>
    { s with
      worlds := Function.update s.worlds a (some { world with unloading := true })
      entities := Function.update s.entities entity none }

def worldGetNodeCount (s : Simulation) (world : World) : Option Nat :=
  (world.scales.mapM fun x => (s.scales x).map (·.nodes)).map List.sum

def destroyWorld (s : Simulation) (a : Nat) (world : World) : Simulation :=
  { s with
    scales := fun x => if x ∈ world.scales then none else s.scales x
    worlds := Function.update s.worlds a none
    destroyed := s.destroyed ++ [world.serial] }

/-- What `Update` does with a world that has finished unloading. -/
def removeWorld (s : Simulation) (it : Nat) (a : Nat) (world : World) : Simulation :=
  let s := world.scales.foldl (fun s scale =>
    { s with spatialScales := unorderedErase s.spatialScales scale }.modifyType world.type
      fun data => { data with scales := unorderedErase data.scales scale }) s
  let s := s.modifyType world.type fun data => { data with worlds := unorderedErase data.worlds a }
  let s := { s with spatialWorlds := unorderedEraseIt s.spatialWorlds it }
  s.destroyWorld a world

/-- The loop of `Update`; `turns` bounds its turns, and `none` is also a world or a scale that was
freed. -/
def updateLoop : Nat → Nat → Simulation → Option Simulation
  | 0, _, _ => none
  | turns + 1, it, s =>
    match s.spatialWorlds[it]? with
    | none => some s
    | some a =>
      (s.worlds a).bind fun world =>
        (s.worldGetNodeCount world).bind fun count =>
          if world.unloading ∧ count = 0 then updateLoop turns it (s.removeWorld it a world)
          else updateLoop turns (it + 1) s

def update (s : Simulation) : Option Simulation := updateLoop (s.spatialWorlds.length + 1) 0 s

end Simulation

/-- `setNodes` stands for the other updates. -/
inductive Label
  | load (entity : Nat) (type : WorldConstructType) (a : Nat) (scales : List Nat)
  | unload (entity : Nat)
  | setNodes (scale nodes : Nat)
  | update
deriving DecidableEq, Repr

variable (maxScale : WorldConstructType → Nat)

/-- The addresses are free, and there is one for each scale of the type. -/
def Free (s : Simulation) (type : WorldConstructType) (a : Nat) (scales : List Nat) : Prop :=
  s.worlds a = none ∧ scales.length = maxScale type ∧ scales.Nodup ∧ ∀ x ∈ scales, s.scales x = none

instance (s : Simulation) (type : WorldConstructType) (a : Nat) (scales : List Nat) :
    Decidable (Free maxScale s type a scales) :=
  inferInstanceAs (Decidable (_ ∧ _ ∧ _ ∧ _))

def step (s : Simulation) : Label → Option Simulation
  | .load entity type a scales =>
    if Free maxScale s type a scales then some (s.onLoadSpatialEntity entity type a scales) else none
  | .unload entity => s.onUnloadSpatialEntity entity
  | .setNodes scale nodes =>
    (s.scales scale).map fun x =>
      { s with scales := Function.update s.scales scale (some { x with nodes := nodes }) }
  | .update => s.update

def machine : Machine Simulation Label where
  init s := s = {}
  step := step maxScale

/-! ### The lists agree with the worlds -/

namespace Simulation

def scalesOf (s : Simulation) (a : Nat) : List Nat := ((s.worlds a).map World.scales).getD []

def serialOf (s : Simulation) (a : Nat) : Nat := ((s.worlds a).map World.serial).getD 0

def hasType (s : Simulation) (type : WorldConstructType) (a : Nat) : Bool :=
  (s.worlds a).any fun world => world.type = type

end Simulation

/-- The lists hold the worlds that are alive and their scales, each once, and every world created is
alive or was destroyed once. -/
structure Consistent (s : Simulation) : Prop where
  worldsNodup : s.spatialWorlds.Nodup
  alive : ∀ a, a ∈ s.spatialWorlds ↔ (s.worlds a).isSome = true
  typeWorlds : ∀ t, (s.types t).worlds.Perm (s.spatialWorlds.filter (s.hasType t))
  scales : s.spatialScales.Perm (s.spatialWorlds.flatMap s.scalesOf)
  scalesNodup : s.spatialScales.Nodup
  typeScales : ∀ t, (s.types t).scales.Perm ((s.types t).worlds.flatMap s.scalesOf)
  scalesAlive : ∀ x, x ∈ s.spatialScales ↔ (s.scales x).isSome = true
  serials : (s.destroyed ++ s.spatialWorlds.map s.serialOf).Perm (List.range s.created)
  entities : ∀ e a, s.entities e = some a → ∃ world, s.worlds a = some world ∧
    world.unloading = false
  owner : ∀ e e' a, s.entities e = some a → s.entities e' = some a → e = e'

theorem consistent_init : Consistent {} where
  worldsNodup := List.nodup_nil
  alive a := by simp
  typeWorlds t := List.Perm.refl _
  scales := List.Perm.refl _
  scalesNodup := List.nodup_nil
  typeScales t := List.Perm.refl _
  scalesAlive x := by simp
  serials := List.Perm.refl _
  entities e a h := by cases h
  owner e e' a h := by cases h

section
variable {s : Simulation} (h : Consistent s)
include h

theorem Consistent.mem_typeWorlds (t : WorldConstructType) (a : Nat) :
    a ∈ (s.types t).worlds ↔ a ∈ s.spatialWorlds ∧ s.hasType t a = true := by
  rw [(h.typeWorlds t).mem_iff, List.mem_filter]

theorem Consistent.mem_scales {a x : Nat} {world : World} (ha : s.worlds a = some world)
    (hx : x ∈ world.scales) : x ∈ s.spatialScales := by
  rw [h.scales.mem_iff, List.mem_flatMap]
  refine ⟨a, (h.alive a).mpr (by rw [ha]; rfl), ?_⟩
  rw [Simulation.scalesOf, ha]
  exact hx

end

/-- The lists behind a load. -/
structure Loaded (s s' : Simulation) (entity : Nat) (type : WorldConstructType) (a : Nat)
    (scales : List Nat) : Prop where
  spatialWorlds : s'.spatialWorlds = s.spatialWorlds ++ [a]
  spatialScales : s'.spatialScales = s.spatialScales ++ scales
  ofType : s'.types type =
    { worlds := (s.types type).worlds ++ [a], scales := (s.types type).scales ++ scales }
  otherType : ∀ t, t ≠ type → s'.types t = s.types t
  world : s'.worlds a = some { type := type, scales := scales, serial := s.created }
  other : ∀ b, b ≠ a → s'.worlds b = s.worlds b
  scalesAt : ∀ x, s'.scales x =
    if x ∈ scales then some { world := a, index := scales.idxOf x } else s.scales x
  entities : s'.entities = Function.update s.entities entity (some a)
  created : s'.created = s.created + 1
  destroyed : s'.destroyed = s.destroyed

theorem onLoadSpatialEntity_loaded (s : Simulation) (entity : Nat) (type : WorldConstructType)
    (a : Nat) (scales : List Nat) :
    Loaded s (s.onLoadSpatialEntity entity type a scales) entity type a scales where
  spatialWorlds := rfl
  spatialScales := rfl
  ofType := Function.update_self ..
  otherType _ ht := Function.update_of_ne ht _ _
  world := Function.update_self ..
  other _ hb := Function.update_of_ne hb _ _
  scalesAt _ := rfl
  entities := rfl
  created := rfl
  destroyed := rfl

section
variable {maxScale} {s s' : Simulation} (h : Consistent s) {entity a : Nat} {type : WorldConstructType}
  {scales : List Nat} (hl : Loaded s s' entity type a scales) (hfree : Free maxScale s type a scales)

include h hfree in
theorem Consistent.not_mem : a ∉ s.spatialWorlds := by
  intro hmem
  have hsome := (h.alive a).mp hmem
  rw [hfree.1] at hsome
  cases hsome

include h hl

theorem Loaded.alive (b : Nat) : b ∈ s'.spatialWorlds ↔ (s'.worlds b).isSome = true := by
  rw [hl.spatialWorlds, List.mem_append, List.mem_singleton, h.alive]
  by_cases hb : b = a
  · rw [hb, hl.world]
    exact ⟨fun _ => rfl, fun _ => Or.inr rfl⟩
  · rw [hl.other b hb]
    exact ⟨fun hor => hor.resolve_right hb, Or.inl⟩

theorem Loaded.scalesAlive (x : Nat) : x ∈ s'.spatialScales ↔ (s'.scales x).isSome = true := by
  rw [hl.spatialScales, List.mem_append, h.scalesAlive, hl.scalesAt]
  split
  next hx => exact ⟨fun _ => rfl, fun _ => Or.inr hx⟩
  next hx => exact ⟨fun hor => hor.resolve_right hx, Or.inl⟩

include hfree

theorem Loaded.old {b : Nat} (hb : b ∈ s.spatialWorlds) : s'.worlds b = s.worlds b :=
  hl.other b fun hba => h.not_mem hfree (hba ▸ hb)

theorem Loaded.scalesOf {l : List Nat} (hle : l ⊆ s.spatialWorlds) :
    (l ++ [a]).flatMap s'.scalesOf = l.flatMap s.scalesOf ++ scales := by
  have hnew : s'.scalesOf a = scales := by rw [Simulation.scalesOf, hl.world]; rfl
  have hold : l.flatMap s'.scalesOf = l.flatMap s.scalesOf :=
    List.flatMap_congr fun b hb => by
      rw [Simulation.scalesOf, hl.old h hfree (hle hb)]
      rfl
  rw [List.flatMap_append, hold, List.flatMap_cons, List.flatMap_nil, List.append_nil, hnew]

theorem Loaded.typeWorlds (t : WorldConstructType) :
    (s'.types t).worlds.Perm (s'.spatialWorlds.filter (s'.hasType t)) := by
  have hfilter : s.spatialWorlds.filter (s'.hasType t) = s.spatialWorlds.filter (s.hasType t) :=
    List.filter_congr fun b hb => by
      rw [Simulation.hasType, hl.old h hfree hb]
      rfl
  rw [hl.spatialWorlds, List.filter_append, hfilter]
  by_cases ht : t = type
  · have hone : [a].filter (s'.hasType t) = [a] :=
      List.filter_eq_self.mpr fun b hb => by
        rw [List.mem_singleton.mp hb, Simulation.hasType, hl.world]
        exact decide_eq_true ht.symm
    rw [ht, hl.ofType, ← ht, hone]
    exact (h.typeWorlds t).append_right [a]
  · have hnone : [a].filter (s'.hasType t) = [] :=
      List.filter_eq_nil_iff.mpr fun b hb => by
        rw [List.mem_singleton.mp hb, Simulation.hasType, hl.world]
        simpa using fun heq => ht heq.symm
    rw [hl.otherType t ht, hnone, List.append_nil]
    exact h.typeWorlds t

theorem Loaded.scalesNodup : s'.spatialScales.Nodup := by
  obtain ⟨-, -, hnodup, hscales⟩ := hfree
  rw [hl.spatialScales]
  refine List.nodup_append.mpr ⟨h.scalesNodup, hnodup, fun x hx y hy hxy => ?_⟩
  have hsome := (h.scalesAlive x).mp hx
  rw [hxy, hscales y hy] at hsome
  cases hsome

theorem Loaded.typeScales (t : WorldConstructType) :
    (s'.types t).scales.Perm ((s'.types t).worlds.flatMap s'.scalesOf) := by
  have hle : (s.types t).worlds ⊆ s.spatialWorlds := fun b hb => ((h.mem_typeWorlds t b).mp hb).1
  by_cases ht : t = type
  · rw [ht] at hle
    rw [ht, hl.ofType, hl.scalesOf h hfree hle]
    exact (h.typeScales type).append_right scales
  · have hkept : (s.types t).worlds.flatMap s'.scalesOf = (s.types t).worlds.flatMap s.scalesOf :=
      List.flatMap_congr fun b hb => by
        rw [Simulation.scalesOf, hl.old h hfree (hle hb)]
        rfl
    rw [hl.otherType t ht, hkept]
    exact h.typeScales t

theorem Loaded.serials :
    (s'.destroyed ++ s'.spatialWorlds.map s'.serialOf).Perm (List.range s'.created) := by
  have hserial : s.spatialWorlds.map s'.serialOf = s.spatialWorlds.map s.serialOf :=
    List.map_congr_left fun b hb => by
      rw [Simulation.serialOf, hl.old h hfree hb]
      rfl
  have hserialNew : s'.serialOf a = s.created := by rw [Simulation.serialOf, hl.world]; rfl
  rw [hl.spatialWorlds, List.map_append, hserial, hl.created, hl.destroyed, List.range_succ,
    ← List.append_assoc, List.map_singleton, hserialNew]
  exact h.serials.append_right _

theorem Loaded.entityWorlds (e b : Nat) (he : s'.entities e = some b) :
    ∃ world, s'.worlds b = some world ∧ world.unloading = false := by
  rw [hl.entities] at he
  by_cases heq : e = entity
  · rw [heq, Function.update_self, Option.some.injEq] at he
    exact ⟨_, he ▸ hl.world, rfl⟩
  · rw [Function.update_of_ne heq] at he
    obtain ⟨world, hb, hunloading⟩ := h.entities e b he
    exact ⟨world, by rw [hl.old h hfree ((h.alive b).mpr (by rw [hb]; rfl)), hb],
      hunloading⟩

/-- No other entity holds the new world. -/
theorem Loaded.entity_eq {e : Nat} (he : s'.entities e = some a) : e = entity := by
  by_contra hne
  rw [hl.entities, Function.update_of_ne hne] at he
  obtain ⟨world, hworld, -⟩ := h.entities e a he
  rw [hfree.1] at hworld
  cases hworld

theorem Loaded.owner (e e' b : Nat) (he : s'.entities e = some b) (he' : s'.entities e' = some b) :
    e = e' := by
  by_cases hb : b = a
  · subst hb
    rw [hl.entity_eq h hfree he, hl.entity_eq h hfree he']
  · have hold : ∀ d, s'.entities d = some b → s.entities d = some b := by
      intro d hd
      rw [hl.entities] at hd
      by_cases heq : d = entity
      · rw [heq, Function.update_self, Option.some.injEq] at hd
        exact absurd hd.symm hb
      · rw [Function.update_of_ne heq] at hd
        exact hd
    exact h.owner e e' b (hold e he) (hold e' he')

theorem Consistent.load : Consistent s' where
  worldsNodup := by
    rw [hl.spatialWorlds]
    exact List.nodup_append.mpr ⟨h.worldsNodup, List.nodup_singleton a, fun b hb c hc hbc =>
      h.not_mem hfree (List.mem_singleton.mp hc ▸ hbc ▸ hb)⟩
  alive := hl.alive h
  typeWorlds := hl.typeWorlds h hfree
  scales := by
    rw [hl.spatialWorlds, hl.spatialScales, hl.scalesOf h hfree (List.Subset.refl _)]
    exact h.scales.append_right scales
  scalesNodup := hl.scalesNodup h hfree
  typeScales := hl.typeScales h hfree
  scalesAlive := hl.scalesAlive h
  serials := hl.serials h hfree
  entities := hl.entityWorlds h hfree
  owner := hl.owner h hfree

end

theorem Consistent.congr {s s' : Simulation} (h : Consistent s)
    (hworldList : s'.spatialWorlds = s.spatialWorlds)
    (hscaleList : s'.spatialScales = s.spatialScales) (htypes : s'.types = s.types)
    (hcreated : s'.created = s.created) (hdestroyed : s'.destroyed = s.destroyed)
    (hworlds : ∀ a, (s'.worlds a).map (fun w => (w.type, w.scales, w.serial)) =
      (s.worlds a).map fun w => (w.type, w.scales, w.serial))
    (hscales : ∀ x, (s'.scales x).isSome = (s.scales x).isSome)
    (hentities : ∀ e a, s'.entities e = some a → s.entities e = some a ∧
      ∃ world, s'.worlds a = some world ∧ world.unloading = false) : Consistent s' := by
  have hcases : ∀ a, (s'.worlds a = none ∧ s.worlds a = none) ∨ ∃ w w', s'.worlds a = some w' ∧
      s.worlds a = some w ∧ w'.type = w.type ∧ w'.scales = w.scales ∧ w'.serial = w.serial := by
    intro a
    have ha := hworlds a
    cases hw' : s'.worlds a with
    | none =>
      cases hw : s.worlds a with
      | none => exact Or.inl ⟨rfl, rfl⟩
      | some w => rw [hw', hw] at ha; cases ha
    | some w' =>
      cases hw : s.worlds a with
      | none => rw [hw', hw] at ha; cases ha
      | some w =>
        rw [hw', hw, Option.map_some, Option.map_some, Option.some.injEq, Prod.mk.injEq,
          Prod.mk.injEq] at ha
        exact Or.inr ⟨w, w', rfl, rfl, ha.1, ha.2.1, ha.2.2⟩
  have hscalesOf : s'.scalesOf = s.scalesOf := by
    funext a
    unfold Simulation.scalesOf
    rcases hcases a with ⟨h', ho⟩ | ⟨w, w', h', ho, _, hsc, _⟩
    · rw [h', ho]
    · rw [h', ho, Option.map_some, Option.map_some, hsc]
  have hserialOf : s'.serialOf = s.serialOf := by
    funext a
    unfold Simulation.serialOf
    rcases hcases a with ⟨h', ho⟩ | ⟨w, w', h', ho, _, _, hser⟩
    · rw [h', ho]
    · rw [h', ho, Option.map_some, Option.map_some, hser]
  have hhasType : s'.hasType = s.hasType := by
    funext t a
    unfold Simulation.hasType
    rcases hcases a with ⟨h', ho⟩ | ⟨w, w', h', ho, hty, _, _⟩
    · rw [h', ho]
    · rw [h', ho, Option.any_some, Option.any_some, hty]
  refine ⟨?_, ?_, ?_, ?_, ?_, ?_, ?_, ?_, fun e a he => (hentities e a he).2, ?_⟩
  · rw [hworldList]
    exact h.worldsNodup
  · intro a
    rw [hworldList, h.alive]
    rcases hcases a with ⟨h', ho⟩ | ⟨w, w', h', ho, _⟩
    · rw [h', ho]
    · rw [h', ho, Option.isSome_some, Option.isSome_some]
  · intro t
    rw [htypes, hworldList, hhasType]
    exact h.typeWorlds t
  · rw [hscaleList, hworldList, hscalesOf]
    exact h.scales
  · rw [hscaleList]
    exact h.scalesNodup
  · intro t
    rw [htypes, hscalesOf]
    exact h.typeScales t
  · intro x
    rw [hscaleList, hscales]
    exact h.scalesAlive x
  · rw [hdestroyed, hworldList, hserialOf, hcreated]
    exact h.serials
  · intro e e' a he he'
    exact h.owner e e' a (hentities e a he).1 (hentities e' a he').1

theorem Consistent.unload {s s' : Simulation} (h : Consistent s) {entity : Nat}
    (hs : s.onUnloadSpatialEntity entity = some s') : Consistent s' := by
  obtain ⟨a, ha, hs⟩ := Option.bind_eq_some_iff.mp hs
  obtain ⟨world, hworld, rfl⟩ := Option.map_eq_some_iff.mp hs
  refine h.congr rfl rfl rfl rfl rfl (fun b => ?_) (fun x => rfl) fun e b he => ?_
  · by_cases hb : b = a
    · rw [hb]
      simp only [Function.update_self, hworld, Option.map_some]
    · simp only [Function.update_of_ne hb]
  · by_cases heq : e = entity
    · rw [heq] at he
      simp only [Function.update_self, reduceCtorEq] at he
    · simp only [Function.update_of_ne heq] at he
      have hb : b ≠ a := fun hba => heq (h.owner e entity a (hba ▸ he) ha)
      exact ⟨he, by simpa only [Function.update_of_ne hb] using h.entities e b he⟩

theorem Consistent.setNodes {s : Simulation} (h : Consistent s) {scale : Nat} {x : Scale}
    (hx : s.scales scale = some x) (nodes : Nat) :
    Consistent { s with
      scales := Function.update s.scales scale (some { x with nodes := nodes }) } := by
  refine h.congr rfl rfl rfl rfl rfl (fun b => rfl) (fun y => ?_)
    fun e b he => ⟨he, h.entities e b he⟩
  by_cases hy : y = scale
  · rw [hy]
    simp only [Function.update_self, hx, Option.isSome_some]
  · simp only [Function.update_of_ne hy]

/-! ### Removing a world -/

theorem removeScales_eq (type : WorldConstructType) (scales : List Nat) : ∀ s : Simulation,
    scales.foldl (fun s scale =>
      { s with spatialScales := unorderedErase s.spatialScales scale }.modifyType type
        fun data => { data with scales := unorderedErase data.scales scale }) s =
    { s with spatialScales := scales.foldl unorderedErase s.spatialScales }.modifyType type
      fun data => { data with scales := scales.foldl unorderedErase data.scales } := by
  induction scales with
  | nil =>
    intro s
    simp only [List.foldl_nil, Simulation.modifyType, Function.update_eq_self]
  | cons x scales ih =>
    intro s
    rw [List.foldl_cons, ih]
    simp only [Simulation.modifyType, Function.update_self, Function.update_idem, List.foldl_cons]

/-- The lists behind a removal. -/
structure Removed (s s' : Simulation) (it a : Nat) (world : World) : Prop where
  spatialWorlds : s'.spatialWorlds = unorderedEraseIt s.spatialWorlds it
  spatialScales : s'.spatialScales = world.scales.foldl unorderedErase s.spatialScales
  type : s'.types world.type =
    { worlds := unorderedErase (s.types world.type).worlds a
      scales := world.scales.foldl unorderedErase (s.types world.type).scales }
  otherType : ∀ t, t ≠ world.type → s'.types t = s.types t
  worlds : s'.worlds = Function.update s.worlds a none
  scales : ∀ x, s'.scales x = if x ∈ world.scales then none else s.scales x
  entities : s'.entities = s.entities
  created : s'.created = s.created
  destroyed : s'.destroyed = s.destroyed ++ [world.serial]

theorem removeWorld_removed (s : Simulation) (it a : Nat) (world : World) :
    Removed s (s.removeWorld it a world) it a world := by
  unfold Simulation.removeWorld
  rw [removeScales_eq]
  refine ⟨rfl, rfl, ?_, fun t ht => ?_, rfl, fun x => rfl, rfl, rfl, rfl⟩
  · simp only [Simulation.destroyWorld, Simulation.modifyType, Function.update_self]
  · simp only [Simulation.destroyWorld, Simulation.modifyType, Function.update_of_ne ht]

theorem Removed.perm {s s' : Simulation} {it a : Nat} {world : World}
    (hr : Removed s s' it a world) (hit : s.spatialWorlds[it]? = some a) :
    s.spatialWorlds.Perm (a :: s'.spatialWorlds) := by
  obtain ⟨hlt, hget⟩ := List.getElem?_eq_some_iff.mp hit
  rw [hr.spatialWorlds]
  refine (List.getElem_cons_eraseIdx_perm hlt).symm.trans ?_
  rw [hget]
  exact (unorderedEraseIt_perm s.spatialWorlds hlt).symm.cons a

theorem Removed.other {s s' : Simulation} {it a : Nat} {world : World}
    (hr : Removed s s' it a world) {b : Nat} (hb : b ≠ a) : s'.worlds b = s.worlds b := by
  rw [hr.worlds, Function.update_of_ne hb]

section
variable {s s' : Simulation} (h : Consistent s) {it a : Nat} {world : World}
  (hr : Removed s s' it a world) (hit : s.spatialWorlds[it]? = some a)
include h hr hit

theorem Removed.nodup : a ∉ s'.spatialWorlds ∧ s'.spatialWorlds.Nodup :=
  List.nodup_cons.mp ((hr.perm hit).nodup_iff.mp h.worldsNodup)

theorem Removed.ne {b : Nat} (hb : b ∈ s'.spatialWorlds) : b ≠ a :=
  fun hba => (hr.nodup h hit).1 (hba ▸ hb)

theorem Removed.alive (b : Nat) : b ∈ s'.spatialWorlds ↔ (s'.worlds b).isSome = true := by
  by_cases hb : b = a
  · rw [hb, hr.worlds, Function.update_self]
    exact ⟨fun hmem => absurd hmem (hr.nodup h hit).1, fun hsome => by cases hsome⟩
  · rw [hr.other hb, ← h.alive, (hr.perm hit).mem_iff, List.mem_cons]
    exact ⟨Or.inr, fun hor => hor.resolve_left hb⟩

theorem Removed.scales_perm (ha : s.worlds a = some world) :
    s.spatialScales.Perm (world.scales ++ s'.spatialWorlds.flatMap s'.scalesOf) := by
  have hscalesA : s.scalesOf a = world.scales := by rw [Simulation.scalesOf, ha]; rfl
  refine h.scales.trans (((hr.perm hit).flatMap_right s.scalesOf).trans (List.Perm.of_eq ?_))
  rw [List.flatMap_cons, hscalesA]
  congr 1
  refine List.flatMap_congr fun b hb => ?_
  rw [Simulation.scalesOf, Simulation.scalesOf, hr.other (hr.ne h hit hb)]

end

section
variable {s s' : Simulation} (h : Consistent s) {it a : Nat} {world : World}
  (hr : Removed s s' it a world) (hit : s.spatialWorlds[it]? = some a)
  (ha : s.worlds a = some world)
include h hr hit ha

theorem Removed.typeWorlds_perm :
    (s.types world.type).worlds.Perm (a :: (s'.types world.type).worlds) := by
  have hmem : a ∈ (s.types world.type).worlds := by
    refine (h.mem_typeWorlds world.type a).mpr ⟨(hr.perm hit).mem_iff.mpr List.mem_cons_self, ?_⟩
    rw [Simulation.hasType, ha]
    exact decide_eq_true rfl
  rw [hr.type]
  exact (List.perm_cons_erase hmem).trans ((unorderedErase_perm _ a).symm.cons a)

theorem Removed.typeWorlds (t : WorldConstructType) :
    (s'.types t).worlds.Perm (s'.spatialWorlds.filter (s'.hasType t)) := by
  have hsame : s'.spatialWorlds.filter (s'.hasType t) = s'.spatialWorlds.filter (s.hasType t) :=
    List.filter_congr fun b hb => by
      rw [Simulation.hasType, hr.other (hr.ne h hit hb)]
      rfl
  have hold : (s.types t).worlds.Perm ((a :: s'.spatialWorlds).filter (s.hasType t)) :=
    (h.typeWorlds t).trans ((hr.perm hit).filter _)
  rw [hsame]
  by_cases ht : t = world.type
  · have hyes : s.hasType t a = true := by
      rw [Simulation.hasType, ha]
      exact decide_eq_true ht.symm
    rw [List.filter_cons_of_pos hyes, ht] at hold
    rw [ht]
    exact ((hr.typeWorlds_perm h hit ha).symm.trans hold).cons_inv
  · have hno : ¬s.hasType t a = true := by
      rw [Simulation.hasType, ha]
      simpa using fun heq => ht heq.symm
    rw [List.filter_cons_of_neg hno] at hold
    rw [hr.otherType t ht]
    exact hold

theorem Removed.spatialScales_perm :
    s'.spatialScales.Perm (s'.spatialWorlds.flatMap s'.scalesOf) := by
  rw [hr.spatialScales]
  exact foldl_unorderedErase_perm world.scales _ (hr.scales_perm h hit ha)

theorem Removed.typeScales (t : WorldConstructType) :
    (s'.types t).scales.Perm ((s'.types t).worlds.flatMap s'.scalesOf) := by
  have hscalesOf : ∀ b, b ≠ a → s'.scalesOf b = s.scalesOf b := fun b hb => by
    rw [Simulation.scalesOf, hr.other hb]
    rfl
  by_cases ht : t = world.type
  · have hscalesA : s.scalesOf a = world.scales := by rw [Simulation.scalesOf, ha]; rfl
    have hold := (h.typeScales world.type).trans
      ((hr.typeWorlds_perm h hit ha).flatMap_right s.scalesOf)
    rw [List.flatMap_cons, hscalesA] at hold
    have hleft := foldl_unorderedErase_perm world.scales _ hold
    have hne : ∀ b ∈ (s'.types world.type).worlds, b ≠ a := fun b hb => hr.ne h hit
      (List.mem_filter.mp ((hr.typeWorlds h hit ha world.type).mem_iff.mp hb)).1
    rw [ht, List.flatMap_congr fun b hb => hscalesOf b (hne b hb), hr.type]
    rw [hr.type] at hleft
    exact hleft
  · have hkeep : ∀ b ∈ (s.types t).worlds, b ≠ a := fun b hb hba => by
      have hty := ((h.mem_typeWorlds t b).mp hb).2
      rw [hba, Simulation.hasType, ha] at hty
      exact ht (of_decide_eq_true hty).symm
    rw [hr.otherType t ht, List.flatMap_congr fun b hb => hscalesOf b (hkeep b hb)]
    exact h.typeScales t

theorem Removed.scalesAlive (x : Nat) : x ∈ s'.spatialScales ↔ (s'.scales x).isSome = true := by
  have hscales := hr.scales_perm h hit ha
  have hdisjoint := (List.nodup_append.mp (hscales.nodup_iff.mp h.scalesNodup)).2.2
  rw [(hr.spatialScales_perm h hit ha).mem_iff, hr.scales]
  split
  next hx => exact ⟨fun hmem => absurd rfl (hdisjoint x hx x hmem), fun hsome => by cases hsome⟩
  next hx =>
    rw [← h.scalesAlive, hscales.mem_iff, List.mem_append]
    exact ⟨Or.inr, fun hor => hor.resolve_left hx⟩

theorem Removed.serials :
    (s'.destroyed ++ s'.spatialWorlds.map s'.serialOf).Perm (List.range s'.created) := by
  have hserial : (s.spatialWorlds.map s.serialOf).Perm
      (world.serial :: s'.spatialWorlds.map s'.serialOf) := by
    refine ((hr.perm hit).map s.serialOf).trans (List.Perm.of_eq ?_)
    rw [List.map_cons]
    congr 1
    · rw [Simulation.serialOf, ha]
      rfl
    · exact List.map_congr_left fun b hb => by
        rw [Simulation.serialOf, Simulation.serialOf, hr.other (hr.ne h hit hb)]
  rw [hr.destroyed, hr.created, List.append_assoc, List.singleton_append]
  exact (hserial.symm.append_left s.destroyed).trans h.serials

theorem Consistent.remove (hunloading : world.unloading = true) : Consistent s' where
  worldsNodup := (hr.nodup h hit).2
  alive := hr.alive h hit
  typeWorlds := hr.typeWorlds h hit ha
  scales := hr.spatialScales_perm h hit ha
  scalesNodup := by
    have hnodup := (hr.scales_perm h hit ha).nodup_iff.mp h.scalesNodup
    exact (hr.spatialScales_perm h hit ha).nodup_iff.mpr (List.nodup_append.mp hnodup).2.1
  typeScales := hr.typeScales h hit ha
  scalesAlive := hr.scalesAlive h hit ha
  serials := hr.serials h hit ha
  entities e b he := by
    rw [hr.entities] at he
    obtain ⟨w, hw, hwun⟩ := h.entities e b he
    have hb : b ≠ a := fun hba => by
      rw [hba, ha, Option.some.injEq] at hw
      rw [← hw, hunloading] at hwun
      cases hwun
    exact ⟨w, by rw [hr.other hb, hw], hwun⟩
  owner e e' b he he' := by
    rw [hr.entities] at he he'
    exact h.owner e e' b he he'

end

/-! ### `Update` -/

/-- The world is unloading and `WorldGetNodeCount` is 0. -/
def Simulation.finished (s : Simulation) (a : Nat) : Bool :=
  (s.worlds a).any fun world => world.unloading && decide (s.worldGetNodeCount world = some 0)

theorem worldGetNodeCount_congr {s s' : Simulation} {world : World}
    (h : ∀ x ∈ world.scales, s'.scales x = s.scales x) :
    s'.worldGetNodeCount world = s.worldGetNodeCount world := by
  have hmap : ∀ l : List Nat, (∀ x ∈ l, s'.scales x = s.scales x) →
      l.mapM (fun x => (s'.scales x).map Scale.nodes) =
        l.mapM fun x => (s.scales x).map Scale.nodes := by
    intro l
    induction l with
    | nil => exact fun _ => rfl
    | cons x l ih =>
      intro hl
      rw [List.mapM_cons, List.mapM_cons, hl x List.mem_cons_self,
        ih fun y hy => hl y (List.mem_cons_of_mem _ hy)]
  rw [Simulation.worldGetNodeCount, Simulation.worldGetNodeCount, hmap _ h]

theorem Consistent.nodeCount {s : Simulation} (h : Consistent s) {a : Nat} {world : World}
    (ha : s.worlds a = some world) : ∃ count, s.worldGetNodeCount world = some count := by
  have hmap : ∀ l : List Nat, (∀ x ∈ l, x ∈ world.scales) →
      ∃ ns, l.mapM (fun x => (s.scales x).map Scale.nodes) = some ns := by
    intro l
    induction l with
    | nil => exact fun _ => ⟨[], rfl⟩
    | cons x l ih =>
      intro hl
      obtain ⟨ns, hns⟩ := ih fun y hy => hl y (List.mem_cons_of_mem _ hy)
      obtain ⟨y, hy⟩ := Option.isSome_iff_exists.mp
        ((h.scalesAlive x).mp (h.mem_scales ha (hl x List.mem_cons_self)))
      exact ⟨y.nodes :: ns, by rw [List.mapM_cons, hy, hns]; rfl⟩
  obtain ⟨ns, hns⟩ := hmap world.scales fun x hx => hx
  exact ⟨ns.sum, by rw [Simulation.worldGetNodeCount, hns]; rfl⟩

/-- A removal does not change whether another world has finished. -/
theorem Removed.finished {s s' : Simulation} (h : Consistent s) {it a : Nat} {world : World}
    (hr : Removed s s' it a world) (hit : s.spatialWorlds[it]? = some a)
    (ha : s.worlds a = some world) {b : Nat} (hb : b ∈ s'.spatialWorlds) :
    s'.finished b = s.finished b := by
  have hother := hr.other (hr.ne h hit hb)
  have hnodup := (hr.scales_perm h hit ha).nodup_iff.mp h.scalesNodup
  have hdisjoint := (List.nodup_append.mp hnodup).2.2
  rw [Simulation.finished, Simulation.finished, hother]
  cases hw : s.worlds b with
  | none => rfl
  | some w =>
    have hcount : s'.worldGetNodeCount w = s.worldGetNodeCount w := by
      refine worldGetNodeCount_congr fun x hx => ?_
      rw [hr.scales, if_neg]
      intro hgone
      refine hdisjoint x hgone x (List.mem_flatMap.mpr ⟨b, hb, ?_⟩) rfl
      rw [Simulation.scalesOf, hother, hw]
      exact hx
    rw [Option.any_some, Option.any_some, hcount]

/-- A walk of `Update` took out the worlds `gone`. -/
structure Swept (s s' : Simulation) (gone : List Nat) : Prop where
  perm : s.spatialWorlds.Perm (gone ++ s'.spatialWorlds)
  finished : ∀ a ∈ gone, s.finished a = true
  kept : ∀ a ∈ s'.spatialWorlds, s.finished a = false
  worlds : ∀ a ∈ s'.spatialWorlds, s'.worlds a = s.worlds a
  destroyed : s'.destroyed = s.destroyed ++ gone.map s.serialOf
  created : s'.created = s.created

/-- The worlds in front of `it` have not finished; each turn passes one more or removes one. -/
theorem updateLoop_spec : ∀ (turns it : Nat) (s : Simulation), Consistent s →
    s.spatialWorlds.length - it < turns →
    (∀ j < it, ∀ a, s.spatialWorlds[j]? = some a → s.finished a = false) →
    ∃ s' gone, Simulation.updateLoop turns it s = some s' ∧ Consistent s' ∧ Swept s s' gone := by
  intro turns
  induction turns with
  | zero =>
    intro it s _ hlt
    exact absurd hlt (Nat.not_lt_zero _)
  | succ turns ih =>
    intro it s h hlt hbefore
    rw [Simulation.updateLoop]
    cases hit : s.spatialWorlds[it]? with
    | none =>
      have hlen := List.getElem?_eq_none_iff.mp hit
      refine ⟨s, [], rfl, h, List.Perm.refl _, fun a ha => absurd ha List.not_mem_nil, ?_,
        fun a _ => rfl, (List.append_nil _).symm, rfl⟩
      intro a ha
      obtain ⟨j, hj⟩ := List.mem_iff_getElem?.mp ha
      exact hbefore j (Nat.lt_of_lt_of_le (List.getElem?_eq_some_iff.mp hj).1 hlen) a hj
    | some a =>
      have hlen := (List.getElem?_eq_some_iff.mp hit).1
      obtain ⟨world, hworld⟩ := Option.isSome_iff_exists.mp
        ((h.alive a).mp (List.mem_of_getElem? hit))
      obtain ⟨count, hcount⟩ := h.nodeCount hworld
      have hfinished : s.finished a = (world.unloading && decide (count = 0)) := by
        rw [Simulation.finished, hworld, Option.any_some, hcount]
        simp only [Option.some.injEq]
      simp only [hworld, hcount, Option.bind_some]
      by_cases hdone : world.unloading = true ∧ count = 0
      · rw [if_pos hdone]
        have hr := removeWorld_removed s it a world
        have hnext := h.remove hr hit hworld hdone.1
        have hshorter := length_unorderedEraseIt s.spatialWorlds hlen
        rw [← hr.spatialWorlds] at hshorter
        obtain ⟨s', gone, hloop, hs', hswept⟩ := ih it _ hnext (by omega) fun j hj b hb => by
          rw [hr.finished h hit hworld (List.mem_of_getElem? hb)]
          rw [hr.spatialWorlds, getElem?_unorderedEraseIt _ hlen hj] at hb
          exact hbefore j hj b hb
        have hin : ∀ b, b ∈ gone ∨ b ∈ s'.spatialWorlds →
            b ∈ (s.removeWorld it a world).spatialWorlds := fun b hb =>
          hswept.perm.mem_iff.mpr (List.mem_append.mpr hb)
        refine ⟨s', a :: gone, hloop, hs', ?_, ?_, ?_, ?_, ?_, ?_⟩
        · exact (hr.perm hit).trans (hswept.perm.cons a)
        · intro b hb
          rcases List.mem_cons.mp hb with rfl | hb
          · rw [hfinished, hdone.1, hdone.2]
            rfl
          · rw [← hr.finished h hit hworld (hin b (Or.inl hb))]
            exact hswept.finished b hb
        · intro b hb
          rw [← hr.finished h hit hworld (hin b (Or.inr hb))]
          exact hswept.kept b hb
        · intro b hb
          rw [hswept.worlds b hb, hr.other (hr.ne h hit (hin b (Or.inr hb)))]
        · have hserialA : s.serialOf a = world.serial := by
            rw [Simulation.serialOf, hworld]
            rfl
          have hserial : gone.map (s.removeWorld it a world).serialOf = gone.map s.serialOf :=
            List.map_congr_left fun b hb => by
              rw [Simulation.serialOf, Simulation.serialOf,
                hr.other (hr.ne h hit (hin b (Or.inl hb)))]
          rw [hswept.destroyed, hr.destroyed, List.append_assoc, List.singleton_append, hserial,
            List.map_cons, hserialA]
        · rw [hswept.created, hr.created]
      · rw [if_neg hdone]
        have hnot : s.finished a = false := by
          rw [hfinished, Bool.and_eq_false_iff, decide_eq_false_iff_not, ← Bool.not_eq_true]
          exact not_and_or.mp hdone
        refine ih (it + 1) s h (by omega) fun j hj b hb => ?_
        by_cases hji : j = it
        · rw [hji, hit, Option.some.injEq] at hb
          rw [← hb]
          exact hnot
        · exact hbefore j (by omega) b hb

theorem Consistent.update {s : Simulation} (h : Consistent s) :
    ∃ s' gone, s.update = some s' ∧ Consistent s' ∧ Swept s s' gone :=
  updateLoop_spec _ 0 s h (Nat.lt_succ_of_le (Nat.sub_le _ _)) fun j hj =>
    absurd hj (Nat.not_lt_zero j)

theorem reachable_consistent {s : Simulation} (h : (machine maxScale).Reachable s) :
    Consistent s := by
  refine Machine.Reach.invariant (fun s hs => hs ▸ consistent_init) (fun s l s' _ ih _ hstep => ?_) h
  cases l with
  | load entity type a scales =>
    simp only [machine, step] at hstep
    split at hstep
    next hfree =>
      rw [← Option.some.inj hstep]
      exact ih.load (onLoadSpatialEntity_loaded ..) hfree
    next => cases hstep
  | unload entity => exact ih.unload hstep
  | setNodes scale nodes =>
    obtain ⟨x, hx, rfl⟩ := Option.map_eq_some_iff.mp hstep
    exact ih.setNodes hx nodes
  | update =>
    obtain ⟨t, gone, hupdate, ht, _⟩ := ih.update
    rw [← Option.some.inj (hupdate.symm.trans hstep)]
    exact ht

/-! ### Registration -/

/-- The lists of the simulation and of its types hold the worlds that are alive and their scales, each
once; every world created is alive or was destroyed, once; and `Update` takes out exactly the worlds
that have finished unloading. -/
structure Registered (s : Simulation) : Prop where
  worldsNodup : s.spatialWorlds.Nodup
  worlds : s.spatialWorlds.Perm (constructTypes.flatMap fun t => (s.types t).worlds)
  ofType : ∀ t, ∀ a ∈ (s.types t).worlds, s.hasType t a = true
  scalesNodup : s.spatialScales.Nodup
  scales : s.spatialScales.Perm (s.spatialWorlds.flatMap s.scalesOf)
  typeScales : ∀ t, (s.types t).scales.Perm ((s.types t).worlds.flatMap s.scalesOf)
  worldsAlive : ∀ a, a ∈ s.spatialWorlds ↔ (s.worlds a).isSome = true
  scalesAlive : ∀ x, x ∈ s.spatialScales ↔ (s.scales x).isSome = true
  destroyedOnce : (s.destroyed ++ s.spatialWorlds.map s.serialOf).Perm (List.range s.created)
  update : ∃ (s' : Simulation) (gone : List Nat), s.update = some s' ∧
    gone.Perm (s.spatialWorlds.filter s.finished) ∧
    s'.spatialWorlds.Perm (s.spatialWorlds.filter fun a => !s.finished a) ∧
    s'.destroyed = s.destroyed ++ gone.map s.serialOf

theorem Consistent.worlds_perm {s : Simulation} (h : Consistent s) :
    s.spatialWorlds.Perm (constructTypes.flatMap fun t => (s.types t).worlds) := by
  have htypes : constructTypes.Nodup := by decide
  have hunion : (constructTypes.flatMap fun t => (s.types t).worlds).Nodup := by
    refine List.nodup_flatMap.mpr ⟨fun t _ => ?_, ?_⟩
    · exact (h.typeWorlds t).nodup_iff.mpr (h.worldsNodup.filter _)
    · refine htypes.imp fun {t t'} hne a ha ha' => hne ?_
      have hty := ((h.mem_typeWorlds t a).mp ha).2
      have hty' := ((h.mem_typeWorlds t' a).mp ha').2
      unfold Simulation.hasType at hty hty'
      cases hw : s.worlds a with
      | none => rw [hw] at hty; cases hty
      | some world =>
        rw [hw, Option.any_some, decide_eq_true_eq] at hty hty'
        exact hty.symm.trans hty'
  refine (List.perm_ext_iff_of_nodup h.worldsNodup hunion).mpr fun a => ?_
  simp only [List.mem_flatMap, h.mem_typeWorlds]
  refine ⟨fun ha => ?_, fun ⟨_, _, ha, _⟩ => ha⟩
  obtain ⟨world, hworld⟩ := Option.isSome_iff_exists.mp ((h.alive a).mp ha)
  refine ⟨world.type, by cases world.type <;> decide, ha, ?_⟩
  rw [Simulation.hasType, hworld]
  exact decide_eq_true rfl

theorem Swept.exact {s s' : Simulation} {gone : List Nat} (h : Swept s s' gone) :
    gone.Perm (s.spatialWorlds.filter s.finished) ∧
    s'.spatialWorlds.Perm (s.spatialWorlds.filter fun a => !s.finished a) := by
  have hgone : gone.filter s.finished = gone := List.filter_eq_self.mpr h.finished
  have hkept : s'.spatialWorlds.filter s.finished = [] :=
    List.filter_eq_nil_iff.mpr fun a ha => by rw [h.kept a ha]; decide
  have hgone' : gone.filter (fun a => !s.finished a) = [] :=
    List.filter_eq_nil_iff.mpr fun a ha => by rw [h.finished a ha]; decide
  have hkept' : s'.spatialWorlds.filter (fun a => !s.finished a) = s'.spatialWorlds :=
    List.filter_eq_self.mpr fun a ha => by rw [h.kept a ha]; rfl
  constructor
  · have hperm := h.perm.filter s.finished
    rw [List.filter_append, hgone, hkept, List.append_nil] at hperm
    exact hperm.symm
  · have hperm := h.perm.filter fun a => !s.finished a
    rw [List.filter_append, hgone', hkept', List.nil_append] at hperm
    exact hperm.symm

/-- However entities are loaded and unloaded and the simulation is updated, the worlds are
registered. -/
theorem worlds_registered {s : Simulation} (h : (machine maxScale).Reachable s) :
    Registered s := by
  have hc := reachable_consistent maxScale h
  obtain ⟨s', gone, hupdate, _, hswept⟩ := hc.update
  exact ⟨hc.worldsNodup, hc.worlds_perm, fun t a ha => ((hc.mem_typeWorlds t a).mp ha).2,
    hc.scalesNodup, hc.scales, hc.typeScales, hc.alive, hc.scalesAlive, hc.serials,
    s', gone, hupdate, hswept.exact.1, hswept.exact.2, hswept.destroyed⟩

/-- Three worlds, the first destroyed, its address used again, the second unloading with a node. -/
theorem worlds_registered_run : ∃ s, (machine fun _ => 2).exec {}
      [.load 1 .universe 0 [0, 1], .load 2 .galaxy 1 [2, 3], .setNodes 3 1, .unload 1, .unload 2,
        .update, .load 3 .planet 0 [1, 4]] = some s ∧
    (s.spatialWorlds = [1, 0] ∧ s.spatialScales = [3, 2, 1, 4] ∧ s.destroyed = [0]) ∧
    Registered s := by
  have hrun : ∃ s, (machine fun _ => 2).exec {}
      [.load 1 .universe 0 [0, 1], .load 2 .galaxy 1 [2, 3], .setNodes 3 1, .unload 1, .unload 2,
        .update, .load 3 .planet 0 [1, 4]] = some s ∧
      (s.spatialWorlds = [1, 0] ∧ s.spatialScales = [3, 2, 1, 4] ∧ s.destroyed = [0]) :=
    ⟨_, rfl, by decide, by decide, by decide⟩
  obtain ⟨s, hs, hlists⟩ := hrun
  exact ⟨s, hs, hlists, worlds_registered (fun _ => 2) (Machine.reachable_of_exec rfl hs)⟩

end CosmicArchitect.Spatial3D.Registration
