import CosmicArchitect.Simulation.EntityEvents
import CosmicArchitect.Spatial3D.NodeBodies
import CosmicArchitect.Spatial3D.Stamps

/-!
# Entities in nodes

The callbacks of a finished read append entities to a universe node and ask for them to be
loaded. A world keeps the entities of its nodes until the nodes are destroyed, and gets new ones
from its reads only.
-/

namespace CosmicArchitect.UniverseSimulation
open Serialize Spatial3D Universe

/-- The nodes that a step of a world destroyed. -/
def destroyedNodes {D : Type} (m m' : State D) : List (Node D) :=
  (m'.trace.take (m'.trace.length - m.trace.length)).filterMap fun
    | .destroyed a _ => m.world.heap a
    | _ => none

/-- The nodes that a step of the simulation destroys. -/
def destroyedBy (s : Simulation) : Label → List (Node UniverseNode)
  | .universeWorld _ a l =>
    match s.worlds a with
    | some (.universe m) =>
      match Spatial3D.step universeType m l with
      | some m' => destroyedNodes m m'
      | none => []
    | _ => []
  | _ => []

/-! ### Entities in nodes -/

/-- A node of the world holds the entity. -/
def Held (w : World UniverseNode) (id : Nat) : Prop :=
  ∃ a body, w.bodies a = some body ∧ ∃ entity ∈ body.entities, entity.id = id

theorem readGalaxies_entities (count : Nat) : ∀ (n : NodeBody UniverseNode) (reader : Reader),
    n.body.entities <+: (readGalaxies count n reader).1.body.entities := by
  induction count with
  | zero => exact fun n reader => List.prefix_refl _
  | succ count ih =>
    intro n reader
    refine List.IsPrefix.trans ?_ (ih _ _)
    exact List.prefix_append ..

/-- The callbacks of a finished read only append entities. -/
theorem readBody_entities (seed : Nat) (pos : Vector3i) (b : NodeBody UniverseNode)
    (io : IOTask) : b.body.entities <+: (readBody universeType seed pos b io).body.entities := by
  unfold readBody
  split
  · exact readGalaxies_entities _ { b with scaleIndex := ofData _ } _
  · show _ <+: (generateUniverseNode seed pos b).body.entities
    unfold generateUniverseNode
    split
    · exact List.prefix_refl _
    · exact List.prefix_append ..
  · exact List.prefix_refl _

variable {m m' : State UniverseNode} {l : Spatial3D.Label UniverseNode} {id : Nat}

/-- A node keeps its entities until it is destroyed. -/
theorem held_step (hl : ∀ s pos body, l ≠ .editNode s pos body)
    (h : Spatial3D.step universeType m l = some m') (hid : Held m.world id) :
    Held m'.world id ∨ ∃ n ∈ destroyedNodes m m', ∃ entity ∈ n.body.entities, entity.id = id := by
  obtain ⟨a, body, hbody, entity, hentity, rfl⟩ := hid
  cases step_bodies hl h with
  | same hb => exact Or.inl ⟨a, body, hb ▸ hbody, entity, hentity, rfl⟩
  | created b hb hbodies =>
    have hne : a ≠ b := by
      rintro rfl
      simp only [World.bodies, hb, Option.map_none] at hbody
      cases hbody
    refine Or.inl ⟨a, body, ?_, entity, hentity, rfl⟩
    rw [hbodies, Function.update_of_ne hne, hbody]
  | read fresh seed b n io _ hb _ _ _ _ hbodies =>
    refine Or.inl ?_
    by_cases hab : a = b
    · subst hab
      have heq : n.body = body := by
        simp only [World.bodies, hb, Option.map_some] at hbody
        exact Option.some.inj hbody
      refine ⟨a, _, by rw [hbodies, Function.update_self], entity, ?_, rfl⟩
      refine (readBody_entities seed n.position n.toBody io).subset ?_
      show entity ∈ n.body.entities
      rw [heq]
      exact hentity
    · exact ⟨a, body, by rw [hbodies, Function.update_of_ne hab, hbody], entity, hentity, rfl⟩
  | destroyed b n c hb htrace hbodies =>
    by_cases hab : a = b
    · subst hab
      have heq : n.body = body := by
        simp only [World.bodies, hb, Option.map_some] at hbody
        exact Option.some.inj hbody
      refine Or.inr ⟨n, ?_, entity, by rw [heq]; exact hentity, rfl⟩
      have hlength : (Event.destroyed a c :: m.trace).length - m.trace.length = 1 := by
        rw [List.length_cons]
        omega
      rw [destroyedNodes, htrace, hlength]
      simp only [List.take_succ_cons, List.take_zero, List.filterMap_cons, hb, List.filterMap_nil,
        List.mem_singleton]
    · refine Or.inl ⟨a, body, ?_, entity, hentity, rfl⟩
      rw [hbodies, Function.update_of_ne hab, hbody]

/-- A world gets entities from a finished read only. -/
theorem held_of_step (hl : ∀ s pos body, l ≠ .editNode s pos body)
    (h : Spatial3D.step universeType m l = some m') (hid : Held m'.world id) :
    Held m.world id ∨ id ∈ (readRequests m l).map (·.id) := by
  obtain ⟨a, body, hbody, entity, hentity, rfl⟩ := hid
  cases step_bodies hl h with
  | same hb => exact Or.inl ⟨a, body, hb ▸ hbody, entity, hentity, rfl⟩
  | created b hb hbodies =>
    rw [hbodies] at hbody
    by_cases hab : a = b
    · subst hab
      rw [Function.update_self] at hbody
      cases hbody
      cases hentity
    · rw [Function.update_of_ne hab] at hbody
      exact Or.inl ⟨a, body, hbody, entity, hentity, rfl⟩
  | read fresh seed b n io hlabel hb hpolled htask hio hfin hbodies =>
    rw [hbodies] at hbody
    by_cases hab : a = b
    · subst hab
      rw [Function.update_self] at hbody
      cases hbody
      obtain ⟨new, hnew⟩ := readBody_entities seed n.position n.toBody io
      rw [← hnew] at hentity
      rcases List.mem_append.mp hentity with hold | hmem
      · refine Or.inl ⟨a, n.body, ?_, entity, hold, rfl⟩
        rw [World.bodies, hb, Option.map_some]
      · refine Or.inr (List.mem_map_of_mem ?_)
        subst hlabel
        simp only [readRequests, hpolled, htask, hio, hfin, if_true]
        rw [← hnew]
        have hdrop : (n.body.entities ++ new).drop n.body.entities.length = new := List.drop_left
        exact hdrop.symm ▸ hmem
    · rw [Function.update_of_ne hab] at hbody
      exact Or.inl ⟨a, body, hbody, entity, hentity, rfl⟩
  | destroyed b n c hb htrace hbodies =>
    rw [hbodies] at hbody
    by_cases hab : a = b
    · subst hab
      rw [Function.update_self] at hbody
      cases hbody
    · rw [Function.update_of_ne hab] at hbody
      exact Or.inl ⟨a, body, hbody, entity, hentity, rfl⟩

theorem held_destroyedNodes {n : Node UniverseNode} {entity : Galaxy}
    (hn : n ∈ destroyedNodes m m') (hentity : entity ∈ n.body.entities) :
    Held m.world entity.id := by
  obtain ⟨event, -, hevent⟩ := List.mem_filterMap.mp hn
  cases event with
  | destroyed a c =>
    have hn : m.world.heap a = some n := hevent
    exact ⟨a, n.body, by rw [World.bodies, hn, Option.map_some], entity, hentity, rfl⟩
  | _ => cases hevent

theorem step_read {fresh seed : Nat} {n : Node UniverseNode} {io : IOTask}
    (hsound : Sound universeType Guard.any m.world)
    (h : Spatial3D.step universeType m (.next fresh seed) = some m')
    (hpolled : polledLoad m = some n) (htask : n.taskState = .readInProgress)
    (hio : taskOf m n = some io) (hfin : io.finished = true) :
    ∃ a, m'.world.bodies a = some (readBody universeType seed n.position n.toBody io).body := by
  cases hc : m.control with
  | loading now s it =>
    simp only [polledLoad, hc] at hpolled
    obtain ⟨pos, hpos, hrest⟩ := Option.bind_eq_some_iff.mp hpolled
    obtain ⟨a, hfind, hn⟩ := Option.bind_eq_some_iff.mp hrest
    have hfind : m.world.find s pos = some (some a) := Option.join_eq_some_iff.mp hfind
    obtain ⟨a', n', hat, hstate⟩ := hsound.loading hpos
    obtain rfl : a' = a := Option.some.inj (Option.some.inj (hat.find.symm.trans hfind))
    obtain rfl : n' = n := Option.some.inj (hat.heap.symm.trans hn)
    have hs : s < universeType.maxScale := (hsound.placed.live hfind).1
    obtain ⟨τ, hτ, hio⟩ := Option.bind_eq_some_iff.mp hio
    have hlocal : universeType.localNode = true := rfl
    simp only [Spatial3D.step, hc] at h
    split at h
    · cases h
      refine ⟨a', ?_⟩
      simp only [nextLoad, hs, if_true, hpos, hfind, hn, hstate, loadNode, hlocal,
        progressNodeReadTask, htask, hτ, Option.bind_some, hio, Option.map_some, hfin,
        Bool.false_eq_true, if_false, State.record]
      rw [bodies_write (w := m.world.freeTask τ) hn, Function.update_self]
      cases hst : io.status <;> simp only [readBody, hst] <;> rfl
    · cases h
  | _ => simp [polledLoad, hc] at hpolled

theorem held_readRequests (hsound : Sound universeType Guard.any m.world)
    (h : Spatial3D.step universeType m l = some m') {galaxy : Galaxy}
    (hg : galaxy ∈ readRequests m l) : Held m'.world galaxy.id := by
  cases l with
  | next fresh seed =>
    simp only [readRequests] at hg
    split at hg
    · next n hpolled =>
      split at hg
      · next io htask hio =>
        split at hg
        · next hfin =>
          obtain ⟨a, ha⟩ := step_read hsound h hpolled htask hio hfin
          exact ⟨a, _, ha, galaxy, List.mem_of_mem_drop hg, rfl⟩
        · cases hg
      · cases hg
    · cases hg
  | _ => cases hg

theorem readRequests_nil (hload : ∀ now s it, m.control ≠ .loading now s it)
    (l : Spatial3D.Label UniverseNode) : readRequests m l = [] := by
  have hpolled : polledLoad m = none := by
    unfold polledLoad
    split
    · next now s it hc => exact absurd hc (hload now s it)
    · rfl
  cases l with
  | next fresh seed => simp only [readRequests, hpolled]
  | _ => rfl

theorem held_nodeCount (hsound : Sound universeType Guard.any m.world) (h : Held m.world id) :
    worldGetNodeCount universeType m.world ≠ 0 := by
  obtain ⟨a, body, hbody, -⟩ := h
  obtain ⟨n, hn, -⟩ := Option.map_eq_some_iff.mp hbody
  obtain ⟨s, hs⟩ := hsound.placed.stored (place_of_heap hn)
  have hlt : s < universeType.maxScale := (hsound.placed.live hs).1
  intro hzero
  have hlength := List.sum_eq_zero_iff_forall_eq_nat.mp hzero _
    (List.mem_map_of_mem (List.mem_range.mpr hlt))
  have hmem := AList.mem_lookup_iff.mp hs
  rw [List.eq_nil_of_length_eq_zero hlength] at hmem
  cases hmem

theorem step_editNode {s : Nat} {pos : Vector3i} {body : UniverseNode}
    (h : Spatial3D.step universeType m (.editNode s pos body) = some m') :
    ∃ a, m.world.find s pos = some (some a) ∧
      m'.world = m.world.modify a (fun n => { n with body := body }) ∧ m'.control = m.control := by
  simp only [Spatial3D.step] at h
  split at h
  · obtain ⟨a, ha, rfl⟩ := Option.map_eq_some_iff.mp h
    exact ⟨a, Option.join_eq_some_iff.mp ha, rfl, rfl⟩
  · cases h

/-- What a move writes: the entity is appended at `pos'` and erased at `pos`. -/
theorem moveEntity_spec {s i : Nat} {pos pos' : Vector3i} (h : moveEntity m s pos pos' i = some m') :
    ∃ a n b n' entity, m.world.At s pos a n ∧ m.world.At s pos' b n' ∧
      n.body.entities[i]? = some entity ∧
      m'.world = (m.world.modify b fun n => { n with
        body := { n'.body with entities := n'.body.entities ++ [entity] } }).modify a (fun n' =>
          { n' with body := { n.body with entities := n.body.entities.eraseIdx i } }) ∧
      m'.control = m.control := by
  unfold moveEntity at h
  split at h
  · next n n' hn hn' =>
    obtain ⟨a, hfind, hn⟩ := Option.bind_eq_some_iff.mp hn
    obtain ⟨b, hfind', hn'⟩ := Option.bind_eq_some_iff.mp hn'
    have hfind := Option.join_eq_some_iff.mp hfind
    have hfind' := Option.join_eq_some_iff.mp hfind'
    split at h
    · next entity hentity =>
      obtain ⟨m₁, hfirst, hsecond⟩ := Option.bind_eq_some_iff.mp h
      obtain ⟨b', hb', hworld₁, hcontrol₁⟩ := step_editNode hfirst
      obtain ⟨a', ha', hworld, hcontrol⟩ := step_editNode hsecond
      rw [hworld₁, World.find_modify] at ha'
      cases hfind.symm.trans ha'
      cases hfind'.symm.trans hb'
      rw [hworld₁] at hworld
      exact ⟨a, n, b, n', entity, ⟨hfind, hn⟩, ⟨hfind', hn'⟩, hentity, hworld,
        hcontrol.trans hcontrol₁⟩
    · cases h
  · cases h

theorem moveEntity_steps {s i : Nat} {pos pos' : Vector3i}
    (h : moveEntity m s pos pos' i = some m') : ∃ (m₁ : State UniverseNode)
      (l l' : Spatial3D.Label UniverseNode), Spatial3D.step universeType m l = some m₁ ∧
        Spatial3D.step universeType m₁ l' = some m' := by
  unfold moveEntity at h
  split at h
  · split at h
    · obtain ⟨m₁, hfirst, hsecond⟩ := Option.bind_eq_some_iff.mp h
      exact ⟨m₁, _, _, hfirst, hsecond⟩
    · cases h
  · cases h

theorem moveEntity_sound {s i : Nat} {pos pos' : Vector3i}
    (hsound : Sound universeType Guard.any m.world) (h : moveEntity m s pos pos' i = some m') :
    Sound universeType Guard.any m'.world := by
  obtain ⟨m₁, l, l', hfirst, hsecond⟩ := moveEntity_steps h
  exact step_sound (step_sound hsound hfirst) hsecond

theorem mem_eraseIdx_or {α : Type} {l : List α} {i : Nat} {x y : α} (hi : l[i]? = some x)
    (hy : y ∈ l) : y = x ∨ y ∈ l.eraseIdx i := by
  obtain ⟨j, hj⟩ := List.mem_iff_getElem?.mp hy
  by_cases hij : j = i
  · subst hij
    exact Or.inl (Option.some.inj (hj.symm.trans hi))
  · exact Or.inr (List.mem_eraseIdx_iff_getElem?.mpr ⟨j, hij, hj⟩)

/-- The bodies that a move writes. -/
theorem moveEntity_bodies {s i : Nat} {pos pos' : Vector3i}
    (hsound : Sound universeType Guard.any m.world) (hne : pos ≠ pos')
    (h : moveEntity m s pos pos' i = some m') :
    ∃ a b body body' entity, a ≠ b ∧ m.world.bodies a = some body ∧
      m.world.bodies b = some body' ∧ body.entities[i]? = some entity ∧
      m'.world.bodies = Function.update (Function.update m.world.bodies b
        (some { body' with entities := body'.entities ++ [entity] })) a
        (some { body with entities := body.entities.eraseIdx i }) := by
  obtain ⟨a, n, b, n', entity, hat, hat', hentity, hworld, -⟩ := moveEntity_spec h
  have hab : a ≠ b := by
    rintro rfl
    exact hne (Placement.unique hsound.placed hat.find hat'.find).2
  have hb : (m.world.modify b fun n => { n with
      body := { n'.body with entities := n'.body.entities ++ [entity] } }).heap a = some n := by
    rw [World.heap_modify, Function.update_of_ne hab, hat.heap]
  have hbodies := bodies_write hb fun n' =>
    { n' with body := { n.body with entities := n.body.entities.eraseIdx i } }
  rw [← hworld, bodies_write hat'.heap] at hbodies
  refine ⟨a, b, n.body, n'.body, entity, hab, ?_, ?_, hentity, hbodies⟩
  · rw [World.bodies, hat.heap, Option.map_some]
  · rw [World.bodies, hat'.heap, Option.map_some]

theorem moveEntity_held {s i : Nat} {pos pos' : Vector3i}
    (hsound : Sound universeType Guard.any m.world) (hne : pos ≠ pos')
    (h : moveEntity m s pos pos' i = some m') (hid : Held m.world id) : Held m'.world id := by
  obtain ⟨a, b, bodyA, bodyB, entity, hab, hbodyA, hbodyB, hentity, hbodies⟩ :=
    moveEntity_bodies hsound hne h
  obtain ⟨c, body, hbody, galaxy, hgalaxy, rfl⟩ := hid
  have hmoved : galaxy = entity ∨ galaxy ∈ bodyB.entities → Held m'.world galaxy.id := by
    intro hmem
    refine ⟨b, _, by rw [hbodies, Function.update_of_ne hab.symm, Function.update_self], galaxy,
      ?_, rfl⟩
    rcases hmem with rfl | hmem
    · exact List.mem_append_right _ (List.mem_singleton.mpr rfl)
    · exact List.mem_append_left _ hmem
  by_cases hca : c = a
  · subst hca
    cases hbody.symm.trans hbodyA
    rcases mem_eraseIdx_or hentity hgalaxy with heq | hrest
    · exact hmoved (Or.inl heq)
    · exact ⟨c, _, by rw [hbodies, Function.update_self], galaxy, hrest, rfl⟩
  · by_cases hcb : c = b
    · subst hcb
      cases hbody.symm.trans hbodyB
      exact hmoved (Or.inr hgalaxy)
    · refine ⟨c, body, ?_, galaxy, hgalaxy, rfl⟩
      rw [hbodies, Function.update_of_ne hca, Function.update_of_ne hcb, hbody]

theorem held_of_moveEntity {s i : Nat} {pos pos' : Vector3i}
    (hsound : Sound universeType Guard.any m.world) (hne : pos ≠ pos')
    (h : moveEntity m s pos pos' i = some m') (hid : Held m'.world id) : Held m.world id := by
  obtain ⟨a, b, bodyA, bodyB, entity, hab, hbodyA, hbodyB, hentity, hbodies⟩ :=
    moveEntity_bodies hsound hne h
  obtain ⟨c, body, hbody, galaxy, hgalaxy, rfl⟩ := hid
  rw [hbodies] at hbody
  by_cases hca : c = a
  · subst hca
    rw [Function.update_self] at hbody
    cases hbody
    exact ⟨c, bodyA, hbodyA, galaxy, List.mem_of_mem_eraseIdx hgalaxy, rfl⟩
  · rw [Function.update_of_ne hca] at hbody
    by_cases hcb : c = b
    · subst hcb
      rw [Function.update_self] at hbody
      cases hbody
      rcases List.mem_append.mp hgalaxy with hold | hnew
      · exact ⟨c, bodyB, hbodyB, galaxy, hold, rfl⟩
      · cases List.mem_singleton.mp hnew
        exact ⟨a, bodyA, hbodyA, entity, List.mem_of_getElem? hentity, rfl⟩
    · rw [Function.update_of_ne hcb] at hbody
      exact ⟨c, body, hbody, galaxy, hgalaxy, rfl⟩

/-! ### What a step does to the worlds -/

/-- The worlds and the address of the next one. -/
def Simulation.spatial (s : Simulation) : (Nat → Option SpatialWorld) × Nat :=
  (s.worlds, s.nextWorld)

/-- Every world stands below the next address, and the universe worlds are sound. -/
structure WorldsSound (s : Simulation) : Prop where
  below : ∀ a world, s.worlds a = some world → a < s.nextWorld
  sound : ∀ a m, s.worlds a = some (.universe m) → Sound universeType Guard.any m.world

/-- A node of the world at address `a` holds the entity. -/
def HeldBy (s : Simulation) (a id : Nat) : Prop :=
  ∃ m, s.worlds a = some (.universe m) ∧ Held m.world id

/-- The load commands of the world at address `a` run. -/
def Simulation.Loads (s : Simulation) (a : Nat) : Prop :=
  ∃ m, s.worlds a = some (.universe m) ∧ m.control.loadTime.isSome = true

/-- A world keeps its entities apart from those of the nodes that a step destroys, gets those
that it reads, and runs its load commands when it is told to. -/
structure WorldsKept (s s' : Simulation) (l : Label) : Prop where
  sound : WorldsSound s → WorldsSound s'
  held : WorldsSound s → ∀ a id, HeldBy s a id → HeldBy s' a id ∨
    ∃ n ∈ destroyedBy s l, ∃ entity ∈ n.body.entities, entity.id = id
  gained : WorldsSound s → ∀ a id, HeldBy s' a id → HeldBy s a id ∨
    ∃ i l', l = .universeWorld i a l' ∧ id ∈ readIds s a l'
  loads : ∀ a, s'.Loads a → s.Loads a ∨
    ∃ i now, l = .universeWorld i a (.worldDoNodeLoadCommands now)

namespace WorldsKept
variable {s s' s'' : Simulation} {l : Label}

theorem same (h : s'.spatial = s.spatial) : WorldsKept s s' l := by
  obtain ⟨hworlds, hnext⟩ := Prod.mk.inj h
  refine ⟨fun hs => ⟨?_, ?_⟩, fun _ a id hid => Or.inl ?_, fun _ a id hid => Or.inl ?_,
    fun a ha => Or.inl ?_⟩
  · rw [hworlds, hnext]
    exact hs.below
  · rw [hworlds]
    exact hs.sound
  · unfold HeldBy
    rw [hworlds]
    exact hid
  · unfold HeldBy at hid
    rw [hworlds] at hid
    exact hid
  · unfold Simulation.Loads at ha
    rw [hworlds] at ha
    exact ha

/-- What happens to a universe world that stays. -/
structure Replaces (s : Simulation) (l : Label) (a : Nat) (m m' : State UniverseNode) : Prop where
  sound : Sound universeType Guard.any m.world → Sound universeType Guard.any m'.world
  held : Sound universeType Guard.any m.world → ∀ id, Held m.world id → Held m'.world id ∨
    ∃ n ∈ destroyedBy s l, ∃ entity ∈ n.body.entities, entity.id = id
  gained : Sound universeType Guard.any m.world → ∀ id, Held m'.world id → Held m.world id ∨
    ∃ i l', l = .universeWorld i a l' ∧ id ∈ readIds s a l'
  loads : m'.control.loadTime.isSome = true → m.control.loadTime.isSome = true ∨
    ∃ i now, l = .universeWorld i a (.worldDoNodeLoadCommands now)

theorem replace {a : Nat} {world world' : SpatialWorld} (ha : s.worlds a = some world)
    (hworlds : s'.worlds = Function.update s.worlds a (some world'))
    (hnext : s'.nextWorld = s.nextWorld)
    (hkind : ∀ m, world = .universe m → ∃ m', world' = .universe m')
    (h : ∀ m', world' = .universe m' → ∃ m, world = .universe m ∧ Replaces s l a m m') :
    WorldsKept s s' l := by
  refine ⟨fun hs => ⟨fun b other hb => ?_, fun b m hb => ?_⟩, fun hs b id hid => ?_,
    fun hs b id hid => ?_, fun b hb => ?_⟩
  · rw [hnext]
    rw [hworlds] at hb
    by_cases hba : b = a
    · subst hba
      exact hs.below b world ha
    · rw [Function.update_of_ne hba] at hb
      exact hs.below b other hb
  · rw [hworlds] at hb
    by_cases hba : b = a
    · subst hba
      rw [Function.update_self] at hb
      obtain ⟨m₀, rfl, hm⟩ := h m (Option.some.inj hb)
      exact hm.sound (hs.sound b m₀ ha)
    · rw [Function.update_of_ne hba] at hb
      exact hs.sound b m hb
  · obtain ⟨m, hm, hid⟩ := hid
    by_cases hba : b = a
    · subst hba
      obtain ⟨m', rfl⟩ := hkind m (Option.some.inj (ha.symm.trans hm))
      obtain ⟨m₀, rfl, hstep⟩ := h m' rfl
      cases ha.symm.trans hm
      rcases hstep.held (hs.sound b m hm) id hid with hid' | hdestroyed
      · exact Or.inl ⟨m', by rw [hworlds, Function.update_self], hid'⟩
      · exact Or.inr hdestroyed
    · exact Or.inl ⟨m, by rw [hworlds, Function.update_of_ne hba, hm], hid⟩
  · obtain ⟨m', hm', hid⟩ := hid
    rw [hworlds] at hm'
    by_cases hba : b = a
    · subst hba
      rw [Function.update_self] at hm'
      obtain ⟨m, rfl, hstep⟩ := h m' (Option.some.inj hm')
      exact (hstep.gained (hs.sound b m ha) id hid).imp_left fun hid => ⟨m, ha, hid⟩
    · rw [Function.update_of_ne hba] at hm'
      exact Or.inl ⟨m', hm', hid⟩
  · obtain ⟨m', hm', hloads⟩ := hb
    rw [hworlds] at hm'
    by_cases hba : b = a
    · subst hba
      rw [Function.update_self] at hm'
      obtain ⟨m, rfl, hstep⟩ := h m' (Option.some.inj hm')
      exact (hstep.loads hloads).imp_left fun hloads => ⟨m, ha, hloads⟩
    · rw [Function.update_of_ne hba] at hm'
      exact Or.inl ⟨m', hm', hloads⟩

theorem created {database : NodeCoord → Option Bytes} {type : WorldConstructType}
    (hworlds : s'.worlds =
      Function.update s.worlds s.nextWorld (some (createWorld type database)))
    (hnext : s'.nextWorld = s.nextWorld + 1) : WorldsKept s s' l := by
  have hnew : ∀ {b m}, s'.worlds b = some (.universe m) →
      b = s.nextWorld ∧ m = Spatial3D.initial UniverseNode database ∨
        s.worlds b = some (.universe m) := by
    intro b m hb
    rw [hworlds] at hb
    by_cases hba : b = s.nextWorld
    · subst hba
      rw [Function.update_self] at hb
      cases type
      · cases hb
        exact Or.inl ⟨rfl, rfl⟩
      · cases hb
    · rw [Function.update_of_ne hba] at hb
      exact Or.inr hb
  refine ⟨fun hs => ⟨fun b other hb => ?_, fun b m hb => ?_⟩, fun hs b id hid => Or.inl ?_,
    fun hs b id hid => Or.inl ?_, fun b hb => Or.inl ?_⟩
  · rw [hnext]
    rw [hworlds] at hb
    by_cases hba : b = s.nextWorld
    · rw [hba]
      exact Nat.lt_succ_self _
    · rw [Function.update_of_ne hba] at hb
      exact Nat.lt_succ_of_lt (hs.below b other hb)
  · rcases hnew hb with ⟨-, rfl⟩ | hold
    · exact sound_initial universeType Guard.any database
    · exact hs.sound b m hold
  · obtain ⟨m, hm, hid⟩ := hid
    have hne : b ≠ s.nextWorld := Nat.ne_of_lt (hs.below b _ hm)
    exact ⟨m, by rw [hworlds, Function.update_of_ne hne, hm], hid⟩
  · obtain ⟨m, hm, hid⟩ := hid
    rcases hnew hm with ⟨-, rfl⟩ | hold
    · obtain ⟨a, body, hbody, -⟩ := hid
      cases hbody
    · exact ⟨m, hold, hid⟩
  · obtain ⟨m, hm, hloads⟩ := hb
    rcases hnew hm with ⟨-, rfl⟩ | hold
    · cases hloads
    · exact ⟨m, hold, hloads⟩

theorem destroyed (finished : Nat → Bool)
    (hworlds : s'.worlds = fun a => if finished a then none else s.worlds a)
    (hnext : s'.nextWorld = s.nextWorld)
    (hempty : ∀ a m, finished a = true → s.worlds a = some (.universe m) →
      worldGetNodeCount universeType m.world = 0) : WorldsKept s s' l := by
  have hold : ∀ {b world}, s'.worlds b = some world → s.worlds b = some world := by
    intro b world hb
    rw [hworlds] at hb
    simp only at hb
    split at hb
    · cases hb
    · exact hb
  refine ⟨fun hs => ⟨fun b other hb => ?_, fun b m hb => hs.sound b m (hold hb)⟩,
    fun hs b id hid => Or.inl ?_, fun _ b id ⟨m, hm, hid⟩ => Or.inl ⟨m, hold hm, hid⟩,
    fun b ⟨m, hm, hloads⟩ => Or.inl ⟨m, hold hm, hloads⟩⟩
  · rw [hnext]
    exact hs.below b other (hold hb)
  · obtain ⟨m, hm, hid⟩ := hid
    refine ⟨m, ?_, hid⟩
    rw [hworlds]
    simp only
    split
    · next hfinished => exact absurd (hempty b m hfinished hm) (held_nodeCount (hs.sound b m hm) hid)
    · exact hm

theorem trans (h : WorldsKept s s' l) (h' : ∀ l', WorldsKept s' s'' l') : WorldsKept s s'' l := by
  refine ⟨fun hs => (h' l).sound (h.sound hs), fun hs a id hid => ?_, fun hs a id hid => ?_,
    fun a ha => ?_⟩
  · rcases h.held hs a id hid with hid' | hdestroyed
    · rcases (h' .spatialUpdate).held (h.sound hs) a id hid' with hid'' | ⟨n, hn, -⟩
      · exact Or.inl hid''
      · cases hn
    · exact Or.inr hdestroyed
  · rcases (h' .spatialUpdate).gained (h.sound hs) a id hid with hid' | ⟨i, l', hl, -⟩
    · exact h.gained hs a id hid'
    · cases hl
  · rcases (h' .spatialUpdate).loads a ha with ha' | ⟨i, now, hl⟩
    · exact h.loads a ha'
    · cases hl

end WorldsKept

theorem simulationCreateEntity_spatial (s : Simulation) (i id types : Nat) (world : Option Nat) :
    (simulationCreateEntity s i id types world).spatial = s.spatial := by
  simp only [Simulation.spatial, simulationCreateEntity, getPoly]
  split <;> rfl

theorem requests_spatial (i : Nat) (world : Option Nat) (requests : List Galaxy) :
    ∀ s : Simulation, (requests.foldl (fun simulation galaxy =>
      simulationCreateEntity simulation i galaxy.id galaxy.typeId world) s).spatial = s.spatial := by
  induction requests with
  | nil => exact fun s => rfl
  | cons galaxy requests ih =>
    exact fun s => (ih _).trans (simulationCreateEntity_spatial s i galaxy.id galaxy.typeId world)

theorem unloads_spatial (i : Nat) (entities : List Nat) :
    ∀ s : Simulation, (entities.foldl (fun simulation entity =>
      simulationUnloadEntity simulation i (some entity)) s).spatial = s.spatial := by
  induction entities with
  | nil => exact fun s => rfl
  | cons entity entities ih => exact fun s => ih _

theorem createSimulatedGalaxy_spatial (s : Simulation) (i id : Nat) :
    (createSimulatedGalaxy s i id).spatial = s.spatial := by
  unfold createSimulatedGalaxy
  split
  · rfl
  · exact simulationCreateEntity_spatial s i id kSimulatedGalaxyType none

theorem onLoaderEntity_kept (s : Simulation) (entity : Entity) (l : Label) :
    WorldsKept s (onLoaderEntity s entity) l := by
  unfold onLoaderEntity
  split
  · exact WorldsKept.same rfl
  · split
    · exact WorldsKept.same rfl
    · exact WorldsKept.same rfl

theorem onLoadSpatialEntity_kept (database : Option (NodeCoord → Option Bytes)) (s : Simulation)
    (id : Nat) (entity : Entity) (l : Label) :
    WorldsKept s (onLoadSpatialEntity database s id entity) l := by
  unfold onLoadSpatialEntity
  split
  · exact WorldsKept.same rfl
  · exact WorldsKept.created rfl rfl

theorem unload_sound {D : Type} {t : TypeData D} {w : World D} (h : Sound t Guard.any w) :
    Sound t Guard.any { w with unloading := true } := by
  have heffect : Spatial3D.Effect t Guard.any (w, []) ({ w with unloading := true }, []) :=
    .unloadWorld
  exact effect_sound (c := (w, [])) h heffect

theorem onUnloadSpatialEntity_kept (s : Simulation) (id : Nat) (entity : Entity) (l : Label) :
    WorldsKept s (onUnloadSpatialEntity s id entity) l := by
  unfold onUnloadSpatialEntity
  split
  · exact WorldsKept.same rfl
  · next a _ =>
    split
    · exact WorldsKept.same rfl
    · next world hworld =>
      refine WorldsKept.replace hworld rfl rfl (fun m hm => ?_) fun m' hm' => ?_
      · subst hm
        exact ⟨_, rfl⟩
      · cases world
        · cases hm'
          exact ⟨_, rfl, unload_sound, fun _ _ hid => Or.inl hid, fun _ _ hid => Or.inl hid, Or.inl⟩
        · cases hm'

theorem WorldsKept.ite (b : Bool) {s s' : Simulation} {l : Label} (h : WorldsKept s s' l) :
    WorldsKept s (if b then s' else s) l := by
  cases b
  · exact WorldsKept.same rfl
  · exact h

theorem beginLoad_kept (database : Option (NodeCoord → Option Bytes)) (s : Simulation) (id : Nat)
    (entity : Entity) (l : Label) : WorldsKept s (beginLoad database s id entity) l := by
  have hlists : WorldsKept s
      (let s := onLoadEntity s id
       let s := if entity.has [cUniverse] then onLoadUniverseEntity s id else s
       if entity.has [cGalaxy] then onLoadGalaxyEntity s id else s) l := by
    cases entity.has [cUniverse] <;> cases entity.has [cGalaxy] <;> exact WorldsKept.same rfl
  have hspatial := hlists.trans fun l' => WorldsKept.ite (entity.has [cWorld])
    (onLoadSpatialEntity_kept database _ id entity l')
  exact hspatial.trans fun l' => WorldsKept.ite (entity.has [cLoader, cEntity])
    (onLoaderEntity_kept _ entity l')

theorem beginUnload_kept (s : Simulation) (id : Nat) (entity : Entity) (l : Label) :
    WorldsKept s (beginUnload s id entity) l := by
  have hlists : WorldsKept s
      (let s := onUnloadEntity s id
       let s := if entity.has [cUniverse] then onUnloadUniverseEntity s id else s
       if entity.has [cGalaxy] then onUnloadGalaxyEntity s id else s) l := by
    cases entity.has [cUniverse] <;> cases entity.has [cGalaxy] <;> exact WorldsKept.same rfl
  have hspatial := hlists.trans fun l' => WorldsKept.ite (entity.has [cWorld])
    (onUnloadSpatialEntity_kept _ id entity l')
  exact hspatial.trans fun l' => WorldsKept.ite (entity.has [cLoader, cEntity])
    (onLoaderEntity_kept _ entity l')

theorem doEvent_kept (database : Option (NodeCoord → Option Bytes)) (s : Simulation)
    (event : LoadEvent) (ref : Ref) (l : Label) :
    WorldsKept s (doEvent database s event ref) l := by
  unfold doEvent
  split
  · exact WorldsKept.same rfl
  · split
    · exact WorldsKept.same rfl
    · next id _ entity _ =>
      have hrecord : WorldsKept s (s.record (.dispatched event id)) l := WorldsKept.same rfl
      cases event with
      | beginLoad => exact hrecord.trans fun l' => beginLoad_kept database _ id entity l'
      | beginUnload => exact hrecord.trans fun l' => beginUnload_kept _ id entity l'

theorem step_worldsKept {s s' : Simulation} {l : Label} (h : step s l = some s') :
    WorldsKept s s' l := by
  cases step_stepped h with
  | @createUniverse i hc =>
    exact WorldsKept.same (simulationCreateEntity_spatial s i universeId kUniverseType none)
  | @createSimulatedGalaxy i id hc => exact WorldsKept.same (createSimulatedGalaxy_spatial s i id)
  | disconnectFromUniverse hc => exact WorldsKept.same rfl
  | @universeWorld i a l m m' hm hl hi hstep =>
    have hedit : ∀ s pos body, l ≠ .editNode s pos body := by
      intro s pos body heq
      rw [heq] at hl
      exact hl
    have hdestroyed : destroyedBy s (.universeWorld i a l) = destroyedNodes m m' := by
      simp only [destroyedBy, hm, hstep]
    obtain ⟨hworlds, hnext⟩ := Prod.mk.inj
      (requests_spatial i (some a) (readRequests m l) { s with
        worlds := Function.update s.worlds a (some (.universe m'))
        control := if m'.control.isFault then .fault .spatial else s.control })
    refine WorldsKept.replace hm hworlds hnext (fun _ _ => ⟨m', rfl⟩) fun m₁ hm₁ => ?_
    cases hm₁
    refine ⟨m, rfl, fun hs => step_sound hs hstep, fun _ id hid => ?_, fun _ id hid => ?_,
      fun hloads => ?_⟩
    · rw [hdestroyed]
      exact held_step hedit hstep hid
    · refine (held_of_step hedit hstep hid).imp_right fun hread => ⟨i, l, rfl, ?_⟩
      simp only [readIds, hm]
      exact hread
    · by_cases hload : ∃ now, l = .worldDoNodeLoadCommands now
      · obtain ⟨now, rfl⟩ := hload
        exact Or.inr ⟨i, now, rfl⟩
      · obtain ⟨T, hT⟩ := Option.isSome_iff_exists.mp hloads
        refine Or.inl (Option.isSome_iff_exists.mpr ⟨T, ?_⟩)
        exact loadTime_step (fun now heq => hload ⟨now, heq⟩) hstep hT
  | galaxyWorld hm hl hstep =>
    refine WorldsKept.replace hm rfl rfl (fun m₁ hm₁ => ?_) fun m₁ hm₁ => ?_
    · cases hm₁
    · cases hm₁
  | @scaleUpdateEntityNodes a _ _ _ _ m m' hm hidle hunloading hne hmove =>
    refine WorldsKept.replace hm rfl rfl (fun _ _ => ⟨m', rfl⟩) fun m₁ hm₁ => ?_
    cases hm₁
    refine ⟨m, rfl, fun hs => moveEntity_sound hs hmove,
      fun hs id hid => Or.inl (moveEntity_held hs hne hmove hid),
      fun hs id hid => Or.inl (held_of_moveEntity hs hne hmove hid), fun hloads => Or.inl ?_⟩
    obtain ⟨_, _, _, _, _, -, -, -, -, hcontrol⟩ := moveEntity_spec hmove
    rw [← hcontrol]
    exact hloads
  | spatialUpdate hidle =>
    refine WorldsKept.destroyed
      (fun a => (s.worlds a).any fun world => world.unloading && world.nodeCount == 0) rfl rfl ?_
    intro a m hfinished hm
    rw [hm, Option.any_some, Bool.and_eq_true, beq_iff_eq] at hfinished
    exact hfinished.2
  | dispatch hidle => exact WorldsKept.same rfl
  | @event database event ref contexts hc hpop =>
    have hcontexts : ∀ l', WorldsKept s { s with threadContexts := contexts } l' :=
      fun l' => WorldsKept.same rfl
    exact (hcontexts _).trans fun l' => doEvent_kept database _ event ref l'
  | cleanup hc hpop => exact WorldsKept.same rfl
  | @simulationUnload i hc =>
    exact WorldsKept.same (unloads_spatial i s.updatingEntities
      { s with unloading := true, updatingEntities := [] })
  | simulationUnloaded hidle hunloading hworlds => exact WorldsKept.same rfl

end CosmicArchitect.UniverseSimulation
