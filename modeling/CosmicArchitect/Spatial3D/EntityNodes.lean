import CosmicArchitect.Library.Regrouping
import CosmicArchitect.Spatial3D.EntityCells
import Mathlib.Logic.Function.Basic

/-!
# Moving entities to their nodes (Spatial3D/SpatialWorld.cpp)

`ScaleUpdateEntityNodes` erases entities from the vectors it iterates over. The iterator behind
an erased entity is incremented once more, and the first entity found at its own node ends the
whole function.
-/

namespace CosmicArchitect.Spatial3D
open Library.Regrouping
open Vector3 (wrapped)

universe u
variable {ε : Type u}

/-- The nodes of a scale in the order the map has them, and the entities at each. -/
structure ScaleNodes (ε : Type u) where
  order : List Vector3i
  distinct : order.Nodup
  entities : Vector3i → List ε

/-- The loop over the entities of the node at `pos` (lines 755-776): those passed and those the
iterator has before it. The flag says that the function returned; `none` is a step past the end of
the vector. -/
def entityLoop (order : List Vector3i) (required : ε → Vector3i) (pos : Vector3i) :
    List ε → List ε → (Vector3i → List ε) → Option (Bool × (Vector3i → List ε))
  | _, [], entities => some (false, entities)
  | passed, entity :: rest, entities =>
    let requiredNodePos := required entity
    if pos = requiredNodePos then some (true, entities)
    else if requiredNodePos ∈ order then
      let erased := Function.update entities pos (passed ++ rest)
      let moved := Function.update erased requiredNodePos (erased requiredNodePos ++ [entity])
      match rest with
      | [] => none
      | skipped :: rest => entityLoop order required pos (passed ++ [skipped]) rest moved
    else entityLoop order required pos (passed ++ [entity]) rest entities

/-- The loop over the nodes. -/
def nodeLoop (order : List Vector3i) (required : ε → Vector3i) :
    List Vector3i → (Vector3i → List ε) → Option (Vector3i → List ε)
  | [], entities => some entities
  | pos :: nodes, entities =>
    match entityLoop order required pos [] (entities pos) entities with
    | none => none
    | some (true, entities) => some entities
    | some (false, entities) => nodeLoop order required nodes entities

/-- `ScaleUpdateEntityNodes` for the scale of the index. -/
def scaleUpdateEntityNodes (component : ε → CPosition) (index : Nat) (nodes : ScaleNodes ε) :
    Option (ScaleNodes ε) :=
  (nodeLoop nodes.order (fun entity => scaleRequiredNodePos index (component entity)) nodes.order
    nodes.entities).map fun entities => { nodes with entities := entities }

/-! ### Entities that are to be moved -/

section Loops
variable (order : List Vector3i) (target : ε → Vector3i)

/-- The loop over a node's entities comes to their end with all strays moved: an entity stands
behind each stray that is none itself, and no entity the loop looks at is at home. -/
def Passes (pos : Vector3i) : List ε → Prop
  | [] => True
  | [e] => target e ≠ pos ∧ ¬Stray order target pos e
  | e :: next :: rest =>
    target e ≠ pos ∧
    (Stray order target pos e → ¬Stray order target pos next ∧ Passes pos rest) ∧
    (¬Stray order target pos e → Passes pos (next :: rest))

/-- The loop ends with all strays moved, at the end or at an entity that is at home. -/
def Ends (pos : Vector3i) : List ε → Prop
  | [] => True
  | [e] => ¬Stray order target pos e
  | e :: next :: rest =>
    (target e = pos → ∀ e' ∈ next :: rest, ¬Stray order target pos e') ∧
    (Stray order target pos e → ¬Stray order target pos next ∧ Ends pos rest) ∧
    (target e ≠ pos → ¬Stray order target pos e → Ends pos (next :: rest))

/-- The entities after the strays of a node's list were moved. -/
def movedStrays (pos : Vector3i) (entities : Vector3i → List ε) (passed rest : List ε) :
    Vector3i → List ε := fun q =>
  if q = pos then passed ++ rest.filter fun e => ¬Stray order target pos e
  else entities q ++ rest.filter fun e => Stray order target pos e ∧ target e = q

variable {order target} {pos : Vector3i}

theorem ends_of_no_stray (l : List ε) (h : ∀ e ∈ l, ¬Stray order target pos e) :
    Ends order target pos l := by
  induction l using Ends.induct with
  | case1 => trivial
  | case2 e => exact h e (List.mem_singleton_self e)
  | case3 e next rest ihRest ihNext =>
    have htail : ∀ e' ∈ next :: rest, ¬Stray order target pos e' := fun e' he' =>
      h e' (List.mem_cons_of_mem _ he')
    exact ⟨fun _ => htail, fun hs => absurd hs (h e List.mem_cons_self),
      fun _ _ => ihNext htail⟩

/-! ### The loop over the entities of a node -/

/-- An entity given to another node. -/
def giveTo (target : ε → Vector3i) (pos : Vector3i) (entities : Vector3i → List ε)
    (kept : List ε) (e : ε) : Vector3i → List ε :=
  let erased := Function.update entities pos kept
  Function.update erased (target e) (erased (target e) ++ [e])

theorem giveTo_self {entities : Vector3i → List ε} {kept : List ε} {e : ε} (h : target e ≠ pos) :
    giveTo target pos entities kept e pos = kept := by
  rw [giveTo, Function.update_of_ne h.symm, Function.update_self]

theorem giveTo_other {entities : Vector3i → List ε} {kept : List ε} {e : ε} {q : Vector3i}
    (hq : q ≠ pos) : giveTo target pos entities kept e q =
      if target e = q then entities q ++ [e] else entities q := by
  by_cases ht : target e = q
  · rw [giveTo, if_pos ht, ht, Function.update_self, Function.update_of_ne hq]
  · rw [giveTo, if_neg ht, Function.update_of_ne (Ne.symm ht), Function.update_of_ne hq]

theorem loop_home {e : ε} (h : target e = pos) (passed rest : List ε)
    (entities : Vector3i → List ε) :
    entityLoop order target pos passed (e :: rest) entities =
      some (true, entities) := by
  simp only [entityLoop, if_pos h.symm]

theorem loop_waiting {e : ε} (hhome : target e ≠ pos) (hstray : ¬Stray order target pos e)
    (passed rest : List ε) (entities : Vector3i → List ε) :
    entityLoop order target pos passed (e :: rest) entities =
      entityLoop order target pos (passed ++ [e]) rest entities := by
  have hnone : target e ∉ order := fun hmem => hstray ⟨hhome, hmem⟩
  simp only [entityLoop, if_neg hhome.symm, if_neg hnone]

theorem loop_stray {e : ε} (h : Stray order target pos e) (passed : List ε) (next : ε)
    (rest : List ε) (entities : Vector3i → List ε) :
    entityLoop order target pos passed (e :: next :: rest) entities =
      entityLoop order target pos (passed ++ [next]) rest
        (giveTo target pos entities (passed ++ next :: rest) e) := by
  simp only [entityLoop, if_neg h.1.symm, if_pos h.2]
  rfl

/-- Erasing the last entity leaves an iterator that is incremented past the end. -/
theorem loop_stray_last {e : ε} (h : Stray order target pos e) (passed : List ε)
    (entities : Vector3i → List ε) :
    entityLoop order target pos passed [e] entities = none := by
  simp only [entityLoop, if_neg h.1.symm, if_pos h.2]

theorem movedStrays_none {l : List ε} (hl : ∀ e ∈ l, ¬Stray order target pos e) (passed : List ε)
    {entities : Vector3i → List ε} (hpos : entities pos = passed ++ l) :
    movedStrays order target pos entities passed l = entities := by
  funext q
  have hkept : (l.filter fun e => ¬Stray order target pos e) = l :=
    List.filter_eq_self.mpr fun e he => by simpa using hl e he
  have hgone : (l.filter fun e => Stray order target pos e ∧ target e = q) = [] :=
    List.filter_eq_nil_iff.mpr fun e he => by simpa using fun hs => absurd hs (hl e he)
  rw [movedStrays, hkept, hgone, List.append_nil]
  split
  next hq => rw [hq, hpos]
  next => rfl

theorem movedStrays_waiting {e : ε} (hs : ¬Stray order target pos e) (passed rest : List ε)
    (entities : Vector3i → List ε) :
    movedStrays order target pos entities (passed ++ [e]) rest =
      movedStrays order target pos entities passed (e :: rest) := by
  funext q
  simp [movedStrays, hs]

theorem movedStrays_stray {e next : ε} (hs : Stray order target pos e)
    (hnext : ¬Stray order target pos next) (passed rest : List ε) (entities : Vector3i → List ε) :
    movedStrays order target pos (giveTo target pos entities (passed ++ next :: rest) e)
        (passed ++ [next]) rest =
      movedStrays order target pos entities passed (e :: next :: rest) := by
  funext q
  by_cases hq : q = pos
  · simp [movedStrays, hq, hs, hnext]
  · rw [movedStrays, movedStrays, if_neg hq, if_neg hq, giveTo_other hq]
    by_cases ht : target e = q
    · simp [ht, hs, hnext]
    · simp [ht, hnext]

/-- Where the loop ends as it should it has moved all strays, and has come to the end just when
the list passes. -/
theorem loop_ends (l : List ε) : ∀ (passed : List ε) (entities : Vector3i → List ε),
    entities pos = passed ++ l → Ends order target pos l →
    ∃ returned, entityLoop order target pos passed l entities =
        some (returned, movedStrays order target pos entities passed l) ∧
      (returned = false ↔ Passes order target pos l) := by
  induction l using Ends.induct with
  | case1 =>
    intro passed entities hpos _
    refine ⟨false, ?_, fun _ => trivial, fun _ => rfl⟩
    rw [movedStrays_none (by simp) passed hpos]
    rfl
  | case2 e =>
    intro passed entities hpos hends
    have hnone : ∀ e' ∈ [e], ¬Stray order target pos e' := by
      intro e' he'
      rw [List.mem_singleton.mp he']
      exact hends
    rw [movedStrays_none hnone passed hpos]
    by_cases hhome : target e = pos
    · exact ⟨true, loop_home hhome _ _ _, fun h => absurd h (by simp),
        fun h => absurd hhome h.1⟩
    · exact ⟨false, by rw [loop_waiting hhome hends]; rfl, fun _ => ⟨hhome, hends⟩, fun _ => rfl⟩
  | case3 e next rest ihRest ihNext =>
    intro passed entities hpos hends
    obtain ⟨hreturn, hmove, hwait⟩ := hends
    by_cases hhome : target e = pos
    · have hstray : ¬Stray order target pos e := fun hs => hs.1 hhome
      have hnone : ∀ e' ∈ e :: next :: rest, ¬Stray order target pos e' := by
        intro e' he'
        rcases List.mem_cons.mp he' with rfl | he'
        · exact hstray
        · exact hreturn hhome e' he'
      rw [movedStrays_none hnone passed hpos]
      exact ⟨true, loop_home hhome _ _ _, fun h => absurd h (by simp),
        fun h => absurd hhome h.1⟩
    · by_cases hstray : Stray order target pos e
      · obtain ⟨hnext, hrest⟩ := hmove hstray
        have hgiven : giveTo target pos entities (passed ++ next :: rest) e pos =
            (passed ++ [next]) ++ rest := by
          rw [giveTo_self hhome, List.append_assoc, List.singleton_append]
        obtain ⟨returned, hloop, hpasses⟩ := ihRest _ _ hgiven hrest
        refine ⟨returned, ?_, hpasses.trans ?_⟩
        · rw [loop_stray hstray, hloop, movedStrays_stray hstray hnext]
        · exact ⟨fun h => ⟨hhome, fun _ => ⟨hnext, h⟩, fun hs => absurd hstray hs⟩,
            fun h => (h.2.1 hstray).2⟩
      · have hpos' : entities pos = (passed ++ [e]) ++ next :: rest := by
          rw [hpos, List.append_assoc, List.singleton_append]
        obtain ⟨returned, hloop, hpasses⟩ := ihNext _ _ hpos' (hwait hhome hstray)
        refine ⟨returned, ?_, hpasses.trans ?_⟩
        · rw [loop_waiting hhome hstray, hloop, movedStrays_waiting hstray]
        · exact ⟨fun h => ⟨hhome, fun hs => absurd hs hstray, fun _ => h⟩,
            fun h => h.2.2 hstray⟩

/-- An entity of another node stays there, as does one the loop has passed. -/
theorem loop_keeps {q : Vector3i} {e : ε} (l : List ε) :
    ∀ (passed : List ε) (entities : Vector3i → List ε) {entities' : Vector3i → List ε}
      {returned : Bool},
      entityLoop order target pos passed l entities =
        some (returned, entities') →
      e ∈ entities q → (q = pos → e ∈ passed) → e ∈ entities' q := by
  induction l using Ends.induct with
  | case1 =>
    intro passed entities entities' returned hloop he _
    obtain ⟨_, rfl⟩ := Prod.mk.inj (Option.some.inj hloop)
    exact he
  | case2 e' =>
    intro passed entities entities' returned hloop he hpassed
    by_cases hhome : target e' = pos
    · rw [loop_home hhome] at hloop
      obtain ⟨_, rfl⟩ := Prod.mk.inj (Option.some.inj hloop)
      exact he
    · by_cases hstray : Stray order target pos e'
      · rw [loop_stray_last hstray] at hloop
        exact absurd hloop (by simp)
      · rw [loop_waiting hhome hstray] at hloop
        obtain ⟨_, rfl⟩ := Prod.mk.inj (Option.some.inj hloop)
        exact he
  | case3 e' next rest ihRest ihNext =>
    intro passed entities entities' returned hloop he hpassed
    by_cases hhome : target e' = pos
    · rw [loop_home hhome] at hloop
      obtain ⟨_, rfl⟩ := Prod.mk.inj (Option.some.inj hloop)
      exact he
    · by_cases hstray : Stray order target pos e'
      · rw [loop_stray hstray] at hloop
        refine ihRest _ _ hloop ?_ fun hq => List.mem_append_left _ (hpassed hq)
        by_cases hq : q = pos
        · rw [hq, giveTo_self hhome]
          exact List.mem_append_left _ (hpassed hq)
        · rw [giveTo_other hq]
          split
          · exact List.mem_append_left _ he
          · exact he
      · rw [loop_waiting hhome hstray] at hloop
        exact ihNext _ _ hloop he fun hq => List.mem_append_left _ (hpassed hq)

/-- Where the loop does not end as it should it leaves a stray, if it ends at all. -/
theorem loop_stray_left (l : List ε) :
    ∀ (passed : List ε) (entities : Vector3i → List ε) {entities' : Vector3i → List ε}
      {returned : Bool}, entities pos = passed ++ l → ¬Ends order target pos l →
      entityLoop order target pos passed l entities =
        some (returned, entities') →
      ∃ e ∈ entities' pos, Stray order target pos e := by
  induction l using Ends.induct with
  | case1 => exact fun _ _ _ _ _ hends => absurd trivial hends
  | case2 e =>
    intro passed entities entities' returned _ hends hloop
    rw [loop_stray_last (not_not.mp hends)] at hloop
    exact absurd hloop (by simp)
  | case3 e next rest ihRest ihNext =>
    intro passed entities entities' returned hpos hends hloop
    by_cases hhome : target e = pos
    · rw [loop_home hhome] at hloop
      obtain ⟨_, rfl⟩ := Prod.mk.inj (Option.some.inj hloop)
      by_contra hnone
      refine hends ⟨fun _ e' he' hs => hnone ⟨e', ?_, hs⟩, fun hs => absurd hhome hs.1,
        fun hne => absurd hhome hne⟩
      rw [hpos]
      exact List.mem_append_right _ (List.mem_cons_of_mem _ he')
    · by_cases hstray : Stray order target pos e
      · rw [loop_stray hstray] at hloop
        have hgiven : giveTo target pos entities (passed ++ next :: rest) e pos =
            (passed ++ [next]) ++ rest := by
          rw [giveTo_self hhome, List.append_assoc, List.singleton_append]
        by_cases hnext : Stray order target pos next
        · -- The entity behind the erased one is skipped.
          refine ⟨next, loop_keeps rest _ _ hloop ?_ fun _ => ?_, hnext⟩
          · rw [hgiven]
            exact List.mem_append_left _ (List.mem_append_right _ (List.mem_singleton_self next))
          · exact List.mem_append_right _ (List.mem_singleton_self next)
        · refine ihRest _ _ hgiven (fun hrest => hends ?_) hloop
          exact ⟨fun h => absurd h hhome, fun _ => ⟨hnext, hrest⟩, fun _ hs => absurd hstray hs⟩
      · rw [loop_waiting hhome hstray] at hloop
        have hpos' : entities pos = (passed ++ [e]) ++ next :: rest := by
          rw [hpos, List.append_assoc, List.singleton_append]
        refine ihNext _ _ hpos' (fun hrest => hends ?_) hloop
        exact ⟨fun h => absurd h hhome, fun hs => absurd hs hstray, fun _ _ => hrest⟩

/-! ### The loop over the nodes -/

variable {lists : Vector3i → List ε}

theorem movedStrays_moved {done : List Vector3i} (hpos : pos ∉ done) :
    movedStrays order target pos (moved order target lists done) []
        (lists pos ++ done.flatMap (given order target lists pos)) =
      moved order target lists (done ++ [pos]) := by
  funext q
  rw [moved_concat hpos, ← moved_self hpos]
  rfl

/-- The loops end with all strays moved: the lists end, and as long as a later node has a stray
they pass. Behind a node's own list are the strays that the nodes before gave to it. -/
def AllEnd (order : List Vector3i) (target : ε → Vector3i) (lists : Vector3i → List ε)
    (done : List Vector3i) : List Vector3i → Prop
  | [] => True
  | pos :: nodes =>
    let l := lists pos ++ done.flatMap (given order target lists pos)
    Ends order target pos l ∧
    ((∃ q ∈ nodes, ∃ e ∈ lists q, Stray order target q e) → Passes order target pos l) ∧
    AllEnd order target lists (done ++ [pos]) nodes

theorem nodeLoop_keeps {q : Vector3i} {e : ε} (nodes : List Vector3i) :
    ∀ {entities entities' : Vector3i → List ε},
      nodeLoop order target nodes entities = some entities' →
      q ∉ nodes → e ∈ entities q → e ∈ entities' q := by
  induction nodes with
  | nil =>
    intro entities entities' hloop _ he
    obtain rfl := Option.some.inj hloop
    exact he
  | cons pos nodes ih =>
    intro entities entities' hloop hq he
    rw [nodeLoop] at hloop
    have hne : q ≠ pos := fun h => hq (h ▸ List.mem_cons_self)
    split at hloop
    next => exact absurd hloop (by simp)
    next after hafter =>
      obtain rfl := Option.some.inj hloop
      exact loop_keeps _ _ _ hafter he fun h => absurd h hne
    next after hafter =>
      refine ih hloop (fun h => hq (List.mem_cons_of_mem _ h)) ?_
      exact loop_keeps _ _ _ hafter he fun h => absurd h hne

theorem allEnd_of_no_stray (nodes : List Vector3i) :
    ∀ {done : List Vector3i}, (done ++ nodes).Nodup →
      (∀ q ∈ nodes, ∀ e ∈ lists q, ¬Stray order target q e) →
      AllEnd order target lists done nodes := by
  induction nodes with
  | nil => exact fun _ _ => trivial
  | cons pos nodes ih =>
    intro done hdistinct hnone
    have hpos : pos ∉ done := fun h =>
      (List.disjoint_of_nodup_append hdistinct) h List.mem_cons_self
    refine ⟨ends_of_no_stray _ fun e he => ?_, ?_, ih ?_ ?_⟩
    · rcases List.mem_append.mp he with he | he
      · exact hnone pos List.mem_cons_self e he
      · obtain ⟨i, _, he⟩ := List.mem_flatMap.mp he
        exact fun hs => hs.1 (given_home he)
    · rintro ⟨q, hq, e, he, hs⟩
      exact absurd hs (hnone q (List.mem_cons_of_mem _ hq) e he)
    · rwa [List.append_assoc, List.singleton_append]
    · exact fun q hq => hnone q (List.mem_cons_of_mem _ hq)

theorem nodeLoop_moved (nodes : List Vector3i) :
    ∀ {done : List Vector3i}, (done ++ nodes).Nodup → AllEnd order target lists done nodes →
      nodeLoop order target nodes (moved order target lists done) =
        some (moved order target lists (done ++ nodes)) := by
  induction nodes with
  | nil =>
    intro done _ _
    rw [List.append_nil]
    rfl
  | cons pos nodes ih =>
    rintro done hdistinct ⟨hends, hpasses, hrest⟩
    have hpos : pos ∉ done := fun h =>
      (List.disjoint_of_nodup_append hdistinct) h List.mem_cons_self
    have hstep : done ++ pos :: nodes = (done ++ [pos]) ++ nodes := by simp
    obtain ⟨returned, hloop, hreturned⟩ :=
      loop_ends (lists pos ++ done.flatMap (given order target lists pos)) []
        (moved order target lists done) (moved_self hpos) hends
    rw [movedStrays_moved hpos] at hloop
    rw [nodeLoop, moved_self hpos, hloop]
    cases returned with
    | false =>
      rw [hstep] at hdistinct ⊢
      exact ih hdistinct hrest
    | true =>
      -- The function returned here; the nodes left have no strays.
      have hnone : ∀ q ∈ nodes, ∀ e ∈ lists q, ¬Stray order target q e := by
        intro q hq e he hs
        exact absurd (hreturned.mpr (hpasses ⟨q, hq, e, he, hs⟩)) (by simp)
      rw [hstep, moved_no_stray hnone]

/-- Loops that leave no stray have ended as they should. -/
theorem allEnd_of_nodeLoop (nodes : List Vector3i) :
    ∀ {done : List Vector3i} {result : Vector3i → List ε}, (done ++ nodes).Nodup →
      nodeLoop order target nodes (moved order target lists done) =
        some result →
      (∀ q ∈ nodes, ∀ e ∈ result q, ¬Stray order target q e) →
      AllEnd order target lists done nodes := by
  induction nodes with
  | nil => exact fun _ _ _ => trivial
  | cons pos nodes ih =>
    intro done result hdistinct hresult hnone
    have hpos : pos ∉ done := fun h =>
      (List.disjoint_of_nodup_append hdistinct) h List.mem_cons_self
    have hnodes : pos ∉ nodes := (List.nodup_cons.mp (List.nodup_append.mp hdistinct).2.1).1
    have hdistinct' : ((done ++ [pos]) ++ nodes).Nodup := by
      rwa [List.append_assoc, List.singleton_append]
    rw [nodeLoop, moved_self hpos] at hresult
    have hends : Ends order target pos
        (lists pos ++ done.flatMap (given order target lists pos)) := by
      by_contra hends
      split at hresult
      next => exact absurd hresult (by simp)
      next after hafter =>
        obtain ⟨e, he, hs⟩ := loop_stray_left _ [] _ (moved_self hpos) hends hafter
        obtain rfl := Option.some.inj hresult
        exact hnone pos List.mem_cons_self e he hs
      next after hafter =>
        obtain ⟨e, he, hs⟩ := loop_stray_left _ [] _ (moved_self hpos) hends hafter
        exact hnone pos List.mem_cons_self e (nodeLoop_keeps nodes hresult hnodes he) hs
    obtain ⟨returned, hloop, hreturned⟩ :=
      loop_ends (lists pos ++ done.flatMap (given order target lists pos)) []
        (moved order target lists done) (moved_self hpos) hends
    rw [hloop, movedStrays_moved hpos] at hresult
    cases returned with
    | false =>
      refine ⟨hends, fun _ => hreturned.mp rfl, ih hdistinct' hresult fun q hq => ?_⟩
      exact hnone q (List.mem_cons_of_mem _ hq)
    | true =>
      -- The nodes left are as they were, so they have no strays.
      obtain rfl := Option.some.inj hresult
      have hlater : ∀ q ∈ nodes, ∀ e ∈ lists q, ¬Stray order target q e := by
        intro q hq e he
        have hq' : q ∉ done ++ [pos] := fun h => (List.disjoint_of_nodup_append hdistinct') h hq
        refine hnone q (List.mem_cons_of_mem _ hq) e ?_
        rw [moved_self hq']
        exact List.mem_append_left _ he
      refine ⟨hends, ?_, allEnd_of_no_stray nodes hdistinct' hlater⟩
      rintro ⟨q, hq, e, he, hs⟩
      exact absurd hs (hlater q hq e he)

end Loops

/-! ### Relocation -/

variable (component : ε → CPosition) (nodes : ScaleNodes ε)

/-- The node an entity of the first scale requires. -/
def firstScaleNode (component : ε → CPosition) (e : ε) : Vector3i :=
  scaleRequiredNodePos 0 (component e)

/-- The update ends with the scale's entities, every one whose required node exists in that node's
list and every other where it was. -/
def Relocated : Prop :=
  ∃ result, scaleUpdateEntityNodes component 0 nodes = some result ∧
    result.order = nodes.order ∧
    (result.order.flatMap result.entities).Perm (nodes.order.flatMap nodes.entities) ∧
    ∀ pos ∈ nodes.order, (result.entities pos).Perm
      (regrouped nodes.order (firstScaleNode component) nodes.entities pos)

/-- The update relocates the entities exactly when none of its loops misses a stray. -/
theorem relocated_iff :
    Relocated component nodes ↔
      AllEnd nodes.order (firstScaleNode component) nodes.entities [] nodes.order := by
  have hrequired : (fun e => scaleRequiredNodePos 0 (component e)) = firstScaleNode component := rfl
  have hdistinct : ([] ++ nodes.order).Nodup := nodes.distinct
  rw [Relocated, scaleUpdateEntityNodes, hrequired]
  constructor
  · rintro ⟨result, hresult, _, _, hplaced⟩
    obtain ⟨entities, hloop, rfl⟩ := Option.map_eq_some_iff.mp hresult
    refine allEnd_of_nodeLoop nodes.order hdistinct (by rwa [moved_nil]) fun q hq e he => ?_
    exact regrouped_no_stray ((hplaced q hq).mem_iff.mp he)
  · intro hends
    have hloop := nodeLoop_moved nodes.order hdistinct hends
    rw [moved_nil, List.nil_append] at hloop
    rw [hloop]
    have hplaced : ∀ pos ∈ nodes.order,
        (moved nodes.order (firstScaleNode component) nodes.entities nodes.order pos).Perm
          (regrouped nodes.order (firstScaleNode component) nodes.entities pos) :=
      fun pos hpos => moved_all nodes.distinct hpos
    refine ⟨_, rfl, rfl, ?_, hplaced⟩
    exact (List.Perm.flatMap_left _ hplaced).trans (regrouped_conserves nodes.distinct)

/-- Two nodes, the entities at the first of them. -/
def twoNodes (l : List Vector3i) : ScaleNodes Vector3i where
  order := [⟨0, 0, 0⟩, ⟨1, 0, 0⟩]
  distinct := by decide
  entities pos := if pos = ⟨0, 0, 0⟩ then l else []

/-- A stray at the end of its list takes the iterator past the end, and behind an entity at home
it is not found. -/
theorem relocation_fails :
    let component : Vector3i → CPosition := fun v => ⟨.ofVector3i v, 0⟩
    scaleUpdateEntityNodes component 0 (twoNodes [⟨1, 0, 0⟩]) = none ∧
    ¬Relocated component (twoNodes [⟨1, 0, 0⟩]) ∧
    ¬Relocated component (twoNodes [⟨0, 0, 0⟩, ⟨1, 0, 0⟩]) := by
  intro component
  have hrequired : (fun e => scaleRequiredNodePos 0 (component e)) =
      fun v => ⟨wrapped v.x, wrapped v.y, wrapped v.z⟩ := funext required_zero
  have hlast : scaleUpdateEntityNodes component 0 (twoNodes [⟨1, 0, 0⟩]) = none := by
    rw [scaleUpdateEntityNodes, hrequired]
    rfl
  have hhome : scaleUpdateEntityNodes component 0 (twoNodes [⟨0, 0, 0⟩, ⟨1, 0, 0⟩]) =
      some (twoNodes [⟨0, 0, 0⟩, ⟨1, 0, 0⟩]) := by
    rw [scaleUpdateEntityNodes, hrequired]
    rfl
  have htarget : firstScaleNode component = fun v => ⟨wrapped v.x, wrapped v.y, wrapped v.z⟩ :=
    hrequired
  refine ⟨hlast, ?_, ?_⟩
  · rintro ⟨result, hresult, _⟩
    rw [hlast] at hresult
    exact absurd hresult (by simp)
  · rintro ⟨result, hresult, _, _, hplaced⟩
    rw [hhome] at hresult
    obtain rfl := Option.some.inj hresult
    have hlength := (hplaced ⟨1, 0, 0⟩ (by decide)).length_eq
    rw [htarget] at hlength
    exact absurd hlength (by decide)

end CosmicArchitect.Spatial3D
