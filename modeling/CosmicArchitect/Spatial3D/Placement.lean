import CosmicArchitect.Spatial3D.Effects
import Mathlib.Data.List.Nodup

/-!
# Node maps and command lists

`Placement` ties the node map of every scale to the nodes it points to and to the two
command lists. It only reads the position and state of a node, so that it is insensitive
to links, IO tasks and callbacks.
-/

namespace CosmicArchitect.Spatial3D
open Serialize Relation

variable {D : Type}

/-! ### Writes to nodes -/

namespace World

@[simp] theorem find_modify (w : World D) (a : Nat) (f : Node D → Node D) (s : Nat)
    (p : Vector3i) : (w.modify a f).find s p = w.find s p := rfl

@[simp] theorem scales_modify (w : World D) (a : Nat) (f : Node D → Node D) :
    (w.modify a f).scales = w.scales := rfl

theorem heap_modify (w : World D) (a : Nat) (f : Node D → Node D) :
    (w.modify a f).heap = Function.update w.heap a ((w.heap a).map f) := rfl

@[simp] theorem heap_setScale (w : World D) (s : Nat) (f : Scale → Scale) :
    (w.setScale s f).heap = w.heap := rfl

theorem scales_setScale (w : World D) (s : Nat) (f : Scale → Scale) :
    (w.setScale s f).scales = Function.update w.scales s (f (w.scales s)) := rfl

theorem find_setScale_of_ne (w : World D) {s s' : Nat} (f : Scale → Scale) (hne : s' ≠ s)
    (p : Vector3i) : (w.setScale s f).find s' p = w.find s' p := by
  rw [find, scales_setScale, Function.update_of_ne hne, find]

/-- The command lists are not looked at. -/
theorem find_setScale_nodes (w : World D) (s s' : Nat) (p : Vector3i) {f : Scale → Scale}
    (hf : ∀ scale, (f scale).nodes = scale.nodes) :
    (w.setScale s f).find s' p = w.find s' p := by
  by_cases hs : s' = s
  · rw [find, scales_setScale, hs, Function.update_self, hf, find]
  · exact find_setScale_of_ne w f hs p

theorem find_insertNode (w : World D) (s' : Nat) (p : Vector3i) {s : Nat} {pos : Vector3i}
    {v : NodePtr} {f : Scale → Scale} (hf : ∀ scale, (f scale).nodes = scale.nodes.insert pos v) :
    (w.setScale s f).find s' p = if s' = s ∧ p = pos then some v else w.find s' p := by
  by_cases hs : s' = s
  · rw [find, scales_setScale, hs, Function.update_self, hf]
    by_cases hp : p = pos
    · rw [if_pos ⟨rfl, hp⟩, hp, AList.lookup_insert]
    · rw [if_neg fun h => hp h.2, AList.lookup_insert_ne hp, find]
  · rw [find_setScale_of_ne w f hs, if_neg fun h => hs h.1]

/-- What was there is written again. -/
theorem find_insertNode_same {w : World D} {s : Nat} {pos : Vector3i} {v : NodePtr}
    (hfind : w.find s pos = some v) (s' : Nat) (p : Vector3i) {f : Scale → Scale}
    (hf : ∀ scale, (f scale).nodes = scale.nodes.insert pos v) :
    (w.setScale s f).find s' p = w.find s' p := by
  rw [find_insertNode w s' p hf]
  split
  · next h => rw [h.1, h.2, hfind]
  · rfl

end World

/-! ### Nodes without their links -/

/-- A node with all its octree and neighbour links cleared. -/
def Node.core (n : Node D) : Node D :=
  { n with parentIndex := kNodeNoParent, childrenMask := 0, neighbourMask := 0, parent := none
           children := fun _ => none, neighbours := fun _ => none }

/-- A world with the links of all its nodes cleared. -/
def World.core (w : World D) : World D := { w with heap := fun a => (w.heap a).map Node.core }

theorem core_modify (w : World D) (a : Nat) {f : Node D → Node D}
    (hf : ∀ n, (f n).core = n.core) : (w.modify a f).core = w.core := by
  have hheap : (fun b => ((w.modify a f).heap b).map Node.core) =
      fun b => (w.heap b).map Node.core := by
    funext b
    rw [World.heap_modify]
    by_cases hb : b = a
    · subst hb
      rw [Function.update_self, Option.map_map]
      exact congrArg (Option.map · (w.heap b)) (funext hf)
    · rw [Function.update_of_ne hb]
  show World.core _ = _
  simp only [World.core, hheap]
  rfl

theorem core_foldl {ι : Type} {g : World D → ι → World D} (hg : ∀ w i, (g w i).core = w.core)
    (l : List ι) (w : World D) : (l.foldl g w).core = w.core := by
  induction l generalizing w with
  | nil => rfl
  | cons i l ih => rw [List.foldl_cons, ih, hg]

theorem core_modify_modify (w : World D) (a b : Nat) {f g : Node D → Node D}
    (hf : ∀ n, (f n).core = n.core) (hg : ∀ n, (g n).core = n.core) :
    ((w.modify a f).modify b g).core = w.core :=
  (core_modify (w.modify a f) b hg).trans (core_modify w a hf)

theorem core_linkNeighbour (s a : Nat) (pos : Vector3i) (w : World D) (i : Nat) :
    (linkNeighbour s a pos w i).core = w.core := by
  unfold linkNeighbour
  split
  · exact core_modify_modify w _ _ (fun _ => rfl) (fun _ => rfl)
  · rfl

theorem core_linkParent (s a : Nat) (pos : Vector3i) (w : World D) :
    (linkParent s a pos w).core = w.core := by
  unfold linkParent
  split
  · exact core_modify_modify w _ _ (fun _ => rfl) (fun _ => rfl)
  · rfl

theorem core_linkChild (s a : Nat) (pos : Vector3i) (w : World D) (i : Nat) :
    (linkChild s a pos w i).core = w.core := by
  unfold linkChild
  split
  · exact core_modify_modify w _ _ (fun _ => rfl) (fun _ => rfl)
  · rfl

/-- `LinkNode` writes links only. -/
theorem core_linkNode (maxScale : Nat) (w : World D) (a s : Nat) (pos : Vector3i) :
    (linkNode maxScale w a s pos).core = w.core := by
  have hn := core_foldl (core_linkNeighbour (D := D) s a pos) (List.range 6) w
  have hp := core_linkParent (D := D) s a pos
  have hc := core_foldl (core_linkChild (D := D) s a pos) (List.range 8)
  simp only [linkNode]
  split_ifs
  · rw [hc, hp, hn]
  · rw [hc, hn]
  · rw [hp, hn]
  · exact hn

theorem core_unlinkNeighbour (a : Nat) (w : World D) (i : Nat) :
    (unlinkNeighbour a w i).core = w.core := by
  unfold unlinkNeighbour
  split
  · exact core_modify w _ fun _ => rfl
  · rfl

theorem core_unlinkParent (a : Nat) (w : World D) : (unlinkParent a w).core = w.core := by
  unfold unlinkParent
  split
  · split
    · exact core_modify w _ fun _ => rfl
    · rfl
  · rfl

theorem core_unlinkChild (a : Nat) (w : World D) (i : Nat) :
    (unlinkChild a w i).core = w.core := by
  unfold unlinkChild
  split
  · exact core_modify w _ fun _ => rfl
  · rfl

/-- `UnlinkNode` writes links only. -/
theorem core_unlinkNode (maxScale : Nat) (w : World D) (a s : Nat) :
    (unlinkNode maxScale w a s).core = w.core := by
  have hn := core_foldl (core_unlinkNeighbour (D := D) a) (List.range 6) w
  have hp := core_unlinkParent (D := D) a
  have hc := core_foldl (core_unlinkChild (D := D) a) (List.range 8)
  simp only [unlinkNode]
  split_ifs
  · rw [hc, hp, hn]
  · rw [hc, hn]
  · rw [hp, hn]
  · exact hn

/-! ### The invariant -/

/-- Position and state of the node at an address. -/
def World.place (w : World D) (a : Nat) : Option (Vector3i × NodeState) :=
  (w.heap a).map fun n => (n.position, n.state)

abbrev Place := Nat → Option (Vector3i × NodeState)

/- Every pointer in a node map is live, points to a node of that position in one of the
   three living states, and is stored in one scale only; every allocated node is stored; the
   command lists hold the positions of the nodes in the corresponding state, each once. -/
structure Placement (maxScale : Nat) (scales : Nat → Scale) (place : Place) : Prop where
  live : ∀ {s p v}, (scales s).nodes.lookup p = some v → s < maxScale ∧ ∃ a st, v = some a ∧
    place a = some (p, st) ∧ (st = .loading ∨ st = .loaded ∨ st = .unloading)
  inj : ∀ {s p s' p' a}, (scales s).nodes.lookup p = some (some a) →
    (scales s').nodes.lookup p' = some (some a) → s = s'
  stored : ∀ {a p st}, place a = some (p, st) → ∃ s, (scales s).nodes.lookup p = some (some a)
  loadingNodup : ∀ s, (scales s).loadingNodes.Nodup
  unloadingNodup : ∀ s, (scales s).unloadingNodes.Nodup
  loading : ∀ s p, p ∈ (scales s).loadingNodes ↔
    ∃ a, (scales s).nodes.lookup p = some (some a) ∧ place a = some (p, .loading)
  unloading : ∀ s p, p ∈ (scales s).unloadingNodes ↔
    ∃ a, (scales s).nodes.lookup p = some (some a) ∧ place a = some (p, .unloading)

namespace Placement
variable {maxScale : Nat} {scales : Nat → Scale} {place : Place}

theorem unique (h : Placement maxScale scales place) {s s' : Nat} {p p' : Vector3i} {a : Nat}
    (h1 : (scales s).nodes.lookup p = some (some a))
    (h2 : (scales s').nodes.lookup p' = some (some a)) : s = s' ∧ p = p' := by
  obtain ⟨-, b, st, hb, hpl, -⟩ := h.live h1
  obtain ⟨-, b', st', hb', hpl', -⟩ := h.live h2
  cases hb
  cases hb'
  rw [hpl] at hpl'
  cases hpl'
  exact ⟨h.inj h1 h2, rfl⟩

theorem initial (maxScale : Nat) : Placement maxScale (fun _ => {}) (fun _ => none) where
  live h := by simp [AList.lookup_empty] at h
  inj h _ := by simp [AList.lookup_empty] at h
  stored h := by cases h
  loadingNodup _ := List.nodup_nil
  unloadingNodup _ := List.nodup_nil
  loading s p := by simp [AList.lookup_empty]
  unloading s p := by simp [AList.lookup_empty]

/-- The node `a` belongs to position `p` of scale `s`, or is about to be created there. -/
def Owns (scales : Nat → Scale) (place : Place) (s : Nat) (p : Vector3i) (a : Nat) : Prop :=
  (scales s).nodes.lookup p = some (some a) ∨ ((scales s).nodes.lookup p = none ∧ place a = none)

theorem Owns.other (h : Placement maxScale scales place) {s s' : Nat} {p p' : Vector3i}
    {a b : Nat} (ho : Owns scales place s p a)
    (hb : (scales s').nodes.lookup p' = some (some b)) (hne : ¬ (s' = s ∧ p' = p)) : b ≠ a := by
  rintro rfl
  rcases ho with hold | ⟨-, hfresh⟩
  · exact hne (h.unique hb hold)
  · obtain ⟨-, c, st, hc, hpl, -⟩ := h.live hb
    cases hc
    rw [hfresh] at hpl
    cases hpl

section
variable {s : Nat} {p : Vector3i} {a : Nat} {scale : Scale}

/-- A lookup after a change at `p` is the changed position or an old lookup at another one. -/
theorem lookup_changed {st : Option NodeState} (hself : scale.nodes.lookup p = st.map fun _ => some a)
    (hother : ∀ q, q ≠ p → scale.nodes.lookup q = (scales s).nodes.lookup q) {s' : Nat} {q : Vector3i}
    {v : Option Nat} (hv : (Function.update scales s scale s').nodes.lookup q = some v) :
    (s' = s ∧ q = p ∧ v = some a ∧ ∃ x, st = some x) ∨
      (¬ (s' = s ∧ q = p) ∧ (scales s').nodes.lookup q = some v) := by
  by_cases hss : s' = s
  · subst hss
    rw [Function.update_self] at hv
    by_cases hq : q = p
    · subst hq
      rw [hself] at hv
      obtain ⟨x, hx, rfl⟩ := Option.map_eq_some_iff.mp hv
      exact Or.inl ⟨rfl, rfl, rfl, x, hx⟩
    · rw [hother q hq] at hv
      exact Or.inr ⟨fun hc => hq hc.2, hv⟩
  · rw [Function.update_of_ne hss] at hv
    exact Or.inr ⟨fun hc => hss hc.1, hv⟩

/-- A change at `p` leaves what is found at other positions where it is. -/
theorem lookup_unchanged (h : Placement maxScale scales place) (ho : Owns scales place s p a)
    (hother : ∀ q, q ≠ p → scale.nodes.lookup q = (scales s).nodes.lookup q)
    (v : Option (Vector3i × NodeState)) {s' : Nat} {q : Vector3i} {b : Nat}
    (hne : ¬ (s' = s ∧ q = p)) (hb : (scales s').nodes.lookup q = some (some b)) :
    (Function.update scales s scale s').nodes.lookup q = some (some b) ∧
      Function.update place a v b = place b := by
  refine ⟨?_, Function.update_of_ne (Owns.other h ho hb hne) _ _⟩
  by_cases hss : s' = s
  · subst hss
    rw [Function.update_self, hother q fun hq => hne ⟨rfl, hq⟩]
    exact hb
  · rw [Function.update_of_ne hss]
    exact hb

/-- A command list that changes at `p` only still holds the nodes in its state. -/
theorem mem_changed (h : Placement maxScale scales place) (ho : Owns scales place s p a)
    {st : Option NodeState} (hself : scale.nodes.lookup p = st.map fun _ => some a)
    (hother : ∀ q, q ≠ p → scale.nodes.lookup q = (scales s).nodes.lookup q) {x : NodeState}
    {l : Nat → List Vector3i} {l' : List Vector3i}
    (hl' : ∀ q, q ∈ l' ↔ if q = p then st = some x else q ∈ l s)
    (hmem : ∀ s' q, q ∈ l s' ↔
      ∃ b, (scales s').nodes.lookup q = some (some b) ∧ place b = some (q, x))
    (s' : Nat) (q : Vector3i) :
    q ∈ Function.update l s l' s' ↔
      ∃ b, (Function.update scales s scale s').nodes.lookup q = some (some b) ∧
        Function.update place a (st.map fun x => (p, x)) b = some (q, x) := by
  by_cases hc : s' = s ∧ q = p
  · obtain ⟨rfl, rfl⟩ := hc
    rw [Function.update_self, Function.update_self, hl' q, if_pos rfl, hself]
    constructor
    · intro hst
      exact ⟨a, by rw [hst]; rfl, by rw [Function.update_self, hst]; rfl⟩
    · intro hfound
      obtain ⟨b, hb, hpl⟩ := hfound
      obtain ⟨y, hy, hab⟩ := Option.map_eq_some_iff.mp hb
      cases hab
      rw [Function.update_self, hy] at hpl
      cases hpl
      exact hy
  · have hq : q ∈ Function.update l s l' s' ↔ q ∈ l s' := by
      by_cases hss : s' = s
      · subst hss
        rw [Function.update_self, hl' q, if_neg fun hqp => hc ⟨rfl, hqp⟩]
      · rw [Function.update_of_ne hss]
    rw [hq, hmem s' q]
    constructor
    · intro hfound
      obtain ⟨b, hb, hpl⟩ := hfound
      obtain ⟨hb', hpl'⟩ := lookup_unchanged h ho hother (st.map fun x => (p, x)) hc hb
      exact ⟨b, hb', hpl'.trans hpl⟩
    · intro hfound
      obtain ⟨b, hb, hpl⟩ := hfound
      rcases lookup_changed hself hother hb with ⟨hs', hq', -⟩ | ⟨-, hb'⟩
      · exact absurd ⟨hs', hq'⟩ hc
      · exact ⟨b, hb', (lookup_unchanged h ho hother _ hc hb').2.symm.trans hpl⟩

/- One position changes: its node gets the state `st`, or disappears. All four transitions
   of a node (created, loaded, marked, destroyed) are instances. -/
theorem change (h : Placement maxScale scales place) (st : Option NodeState) (hs : s < maxScale)
    (ho : Owns scales place s p a)
    (hst : ∀ x, st = some x → x = .loading ∨ x = .loaded ∨ x = .unloading)
    (hself : scale.nodes.lookup p = st.map fun _ => some a)
    (hother : ∀ q, q ≠ p → scale.nodes.lookup q = (scales s).nodes.lookup q)
    (hln : scale.loadingNodes.Nodup) (hun : scale.unloadingNodes.Nodup)
    (hl : ∀ q, q ∈ scale.loadingNodes ↔
      if q = p then st = some .loading else q ∈ (scales s).loadingNodes)
    (hu : ∀ q, q ∈ scale.unloadingNodes ↔
      if q = p then st = some .unloading else q ∈ (scales s).unloadingNodes) :
    Placement maxScale (Function.update scales s scale)
      (Function.update place a (st.map fun x => (p, x))) := by
  have hproj : ∀ {β : Type} (f : Scale → β) (s' : Nat),
      f (Function.update scales s scale s') = Function.update (fun i => f (scales i)) s (f scale) s' :=
    fun f s' => Function.apply_update (fun _ => f) scales s scale s'
  refine ⟨?_, ?_, ?_, ?_, ?_, ?_, ?_⟩
  · intro s' q v hv
    rcases lookup_changed hself hother hv with ⟨rfl, rfl, rfl, x, hx⟩ | ⟨hne, hv'⟩
    · refine ⟨hs, a, x, rfl, ?_, hst x hx⟩
      rw [Function.update_self, hx]
      rfl
    · obtain ⟨hlt, b, y, rfl, hpl, hy⟩ := h.live hv'
      exact ⟨hlt, b, y, rfl, (lookup_unchanged h ho hother _ hne hv').2.trans hpl, hy⟩
  · intro s1 q1 s2 q2 b h1 h2
    rcases lookup_changed hself hother h1 with ⟨hs1, hq1, hb, -⟩ | ⟨hne1, h1'⟩
    · cases hb
      rcases lookup_changed hself hother h2 with ⟨hs2, -⟩ | ⟨hne2, h2'⟩
      · exact hs1.trans hs2.symm
      · exact absurd rfl (Owns.other h ho h2' hne2)
    · rcases lookup_changed hself hother h2 with ⟨hs2, hq2, hb, -⟩ | ⟨hne2, h2'⟩
      · cases hb
        exact absurd rfl (Owns.other h ho h1' hne1)
      · exact h.inj h1' h2'
  · intro b q x hb
    by_cases hba : b = a
    · subst hba
      rw [Function.update_self] at hb
      obtain ⟨y, hy, hpair⟩ := Option.map_eq_some_iff.mp hb
      cases hpair
      exact ⟨s, by rw [Function.update_self, hself, hy]; rfl⟩
    · rw [Function.update_of_ne hba] at hb
      obtain ⟨s', hs'⟩ := h.stored hb
      have hne : ¬ (s' = s ∧ q = p) := by
        rintro ⟨rfl, rfl⟩
        rcases ho with hold' | ⟨hnone, -⟩
        · cases hs'.symm.trans hold'
          exact hba rfl
        · cases hs'.symm.trans hnone
      exact ⟨s', (lookup_unchanged h ho hother none hne hs').1⟩
  · intro s'
    by_cases hss : s' = s
    · subst hss
      rw [Function.update_self]
      exact hln
    · rw [Function.update_of_ne hss]
      exact h.loadingNodup s'
  · intro s'
    by_cases hss : s' = s
    · subst hss
      rw [Function.update_self]
      exact hun
    · rw [Function.update_of_ne hss]
      exact h.unloadingNodup s'
  · intro s' q
    rw [hproj Scale.loadingNodes s']
    exact mem_changed h ho hself hother hl h.loading s' q
  · intro s' q
    rw [hproj Scale.unloadingNodes s']
    exact mem_changed h ho hself hother hu h.unloading s' q

end

theorem place_of_lookup (h : Placement maxScale scales place) {s : Nat} {p : Vector3i} {a : Nat}
    (h1 : (scales s).nodes.lookup p = some (some a)) : ∃ st, place a = some (p, st) := by
  obtain ⟨-, b, st, hb, hpl, -⟩ := h.live h1
  cases hb
  exact ⟨st, hpl⟩

theorem mem_loading (h : Placement maxScale scales place) {s : Nat} {p : Vector3i} {a : Nat}
    {st : NodeState} (h1 : (scales s).nodes.lookup p = some (some a))
    (h2 : place a = some (p, st)) : p ∈ (scales s).loadingNodes ↔ st = .loading := by
  rw [h.loading]
  constructor
  · rintro ⟨b, hb, hpl⟩
    cases h1.symm.trans hb
    cases h2.symm.trans hpl
    rfl
  · rintro rfl
    exact ⟨a, h1, h2⟩

theorem mem_unloading (h : Placement maxScale scales place) {s : Nat} {p : Vector3i} {a : Nat}
    {st : NodeState} (h1 : (scales s).nodes.lookup p = some (some a))
    (h2 : place a = some (p, st)) : p ∈ (scales s).unloadingNodes ↔ st = .unloading := by
  rw [h.unloading]
  constructor
  · rintro ⟨b, hb, hpl⟩
    cases h1.symm.trans hb
    cases h2.symm.trans hpl
    rfl
  · rintro rfl
    exact ⟨a, h1, h2⟩

end Placement

/-! ### Effects keep the invariant -/

def Placed (t : TypeData D) (w : World D) : Prop := Placement t.maxScale w.scales w.place

theorem scales_of_core {w w' : World D} (h : w'.core = w.core) : w'.scales = w.scales := by
  show w'.core.scales = w.core.scales
  rw [h]

theorem place_core (w : World D) : w.core.place = w.place := by
  funext a
  simp only [World.place, World.core, Option.map_map]
  rfl

theorem place_of_core {w w' : World D} (h : w'.core = w.core) : w'.place = w.place := by
  rw [← place_core w', h, place_core]

theorem place_modify {w : World D} {a : Nat} {n : Node D} (hn : w.heap a = some n)
    (f : Node D → Node D) :
    (w.modify a f).place = Function.update w.place a (some ((f n).position, (f n).state)) := by
  funext b
  simp only [World.place, World.heap_modify]
  by_cases hb : b = a
  · subst hb
    simp only [Function.update_self, hn, Option.map_some]
  · simp only [Function.update_of_ne hb]
    rfl

theorem place_of_heap {w : World D} {a : Nat} {n : Node D} (hn : w.heap a = some n) :
    w.place a = some (n.position, n.state) := by
  simp only [World.place, hn, Option.map_some]

theorem place_modify_keep {w : World D} {a : Nat} {n : Node D} (hn : w.heap a = some n)
    {f : Node D → Node D} (hp : (f n).position = n.position) (hs : (f n).state = n.state) :
    (w.modify a f).place = w.place := by
  rw [place_modify hn f, hp, hs, ← place_of_heap hn, Function.update_eq_self]

theorem Placed.position {t : TypeData D} {w : World D} (h : Placed t w) {s : Nat}
    {pos : Vector3i} {a : Nat} {n : Node D} (hat : w.At s pos a n) : n.position = pos := by
  obtain ⟨st, hst⟩ := Placement.place_of_lookup h hat.find
  rw [place_of_heap hat.heap] at hst
  cases hst
  rfl

theorem scales_finishLoad (t : TypeData D) (s : Nat) (now : Int) (w : World D) (a : Nat)
    (pos : Vector3i) : (finishLoad t s now w a pos).scales = Function.update w.scales s
      { w.scales s with nodes := (w.scales s).nodes.insert pos (some a) } :=
  scales_of_core (core_linkNode _ _ _ _ _)

theorem place_finishLoad (t : TypeData D) (s : Nat) (now : Int) {w : World D} {a : Nat}
    {n : Node D} (hn : w.heap a = some n) :
    (finishLoad t s now w a n.position).place =
      Function.update w.place a (some (n.position, .loaded)) :=
  (place_of_core (core_linkNode _ _ _ _ _)).trans (place_modify hn _)

theorem scales_unlinkNode (maxScale : Nat) (w : World D) (a s : Nat) :
    (unlinkNode maxScale w a s).scales = w.scales :=
  scales_of_core (core_unlinkNode _ _ _ _)

theorem scales_destroyPoly (w : World D) (a : Nat) : (destroyPoly w a).scales = w.scales := by
  unfold destroyPoly
  split <;> rfl

theorem heap_destroyPoly (w : World D) (a : Nat) :
    (destroyPoly w a).heap = Function.update w.heap a none := by
  unfold destroyPoly
  split <;> rfl

theorem scales_finishUnload (t : TypeData D) (s : Nat) (w : World D) (a : Nat)
    (pos : Vector3i) : (finishUnload t s w a pos).scales = Function.update w.scales s
      { w.scales s with nodes := (w.scales s).nodes.erase pos } := by
  simp only [finishUnload, scales_destroyPoly, World.scales_setScale, World.scales_modify,
    scales_unlinkNode]

theorem place_finishUnload (t : TypeData D) (s : Nat) (w : World D) (a : Nat)
    (pos : Vector3i) : (finishUnload t s w a pos).place = Function.update w.place a none := by
  funext b
  by_cases hb : b = a
  · subst hb
    simp only [finishUnload, World.place, heap_destroyPoly, Function.update_self, Option.map_none]
  · have hunlink := congrFun (place_of_core (core_unlinkNode t.maxScale w a s)) b
    rw [Function.update_of_ne hb, ← hunlink]
    simp only [finishUnload, World.place, heap_destroyPoly, World.heap_setScale,
      World.heap_modify, Function.update_of_ne hb]

theorem mem_eraseIdx {l : List Vector3i} (hl : l.Nodup) {i : Nat} {p : Vector3i}
    (hi : l[i]? = some p) (q : Vector3i) : q ∈ l.eraseIdx i ↔ q ≠ p ∧ q ∈ l := by
  obtain ⟨hlt, rfl⟩ := List.getElem?_eq_some_iff.mp hi
  rw [← hl.erase_getElem, hl.mem_erase_iff]

variable {t : TypeData D} {G : Guard} {w w' : World D} {s it : Nat} {a : Nat} {n : Node D}
  {pos : Vector3i}

theorem placed_create (h : Placed t w) (now : Int) (hs : s < t.maxScale)
    (hfind : w.find s pos = none) (ha : w.heap a = none) : Placed t (w.create t s pos now a) := by
  have hplace : (w.create t s pos now a).place =
      Function.update w.place a (some (pos, .loading)) := by
    funext b
    by_cases hb : b = a
    · subst hb
      simp only [World.create, World.place, World.heap_setScale, Function.update_self]
      rfl
    · simp only [World.create, World.place, World.heap_setScale, Function.update_of_ne hb]
  have hpa : w.place a = none := by simp only [World.place, ha, Option.map_none]
  have hnl : pos ∉ (w.scales s).loadingNodes := by
    rw [Placement.loading h]
    rintro ⟨b, hb, -⟩
    cases hfind.symm.trans hb
  have hnu : pos ∉ (w.scales s).unloadingNodes := by
    rw [Placement.unloading h]
    rintro ⟨b, hb, -⟩
    cases hfind.symm.trans hb
  unfold Placed
  rw [hplace]
  refine Placement.change h (some .loading) hs (Or.inr ⟨hfind, hpa⟩) ?_ ?_ ?_ ?_ ?_ ?_ ?_
  · rintro x ⟨⟩; exact Or.inl rfl
  · exact AList.lookup_insert _
  · intro q hq; exact AList.lookup_insert_ne hq
  · exact (Placement.loadingNodup h s).append (List.nodup_singleton pos)
      (List.disjoint_singleton.mpr hnl)
  · exact Placement.unloadingNodup h s
  · intro q
    simp only [List.mem_append, List.mem_singleton]
    by_cases hq : q = pos
    · simp [hq]
    · simp [hq]
  · intro q
    by_cases hq : q = pos
    · subst hq; simpa using hnu
    · simp [hq]

theorem placed_mark (h : Placed t w) (hat : w.At s pos a n) (hst : n.state = .loaded) :
    Placed t (w.mark s a n.position) := by
  have hpos := h.position hat
  have hpl : w.place a = some (pos, .loaded) := by rw [place_of_heap hat.heap, hpos, hst]
  have hs := (Placement.live h hat.find).1
  have hplace : (w.mark s a n.position).place =
      Function.update w.place a (some (pos, .unloading)) := by
    rw [← hpos]
    exact place_modify hat.heap _
  have hnl : pos ∉ (w.scales s).loadingNodes := by
    rw [Placement.mem_loading h hat.find hpl]; simp
  have hnu : pos ∉ (w.scales s).unloadingNodes := by
    rw [Placement.mem_unloading h hat.find hpl]; simp
  unfold Placed
  rw [hplace, hpos]
  refine Placement.change h (some .unloading) hs (Or.inl hat.find) ?_ ?_ ?_ ?_ ?_ ?_ ?_
  · rintro x ⟨⟩; exact Or.inr (Or.inr rfl)
  · exact hat.find
  · intro q _; rfl
  · exact Placement.loadingNodup h s
  · exact (Placement.unloadingNodup h s).append (List.nodup_singleton pos)
      (List.disjoint_singleton.mpr hnu)
  · intro q
    by_cases hq : q = pos
    · subst hq; simpa using hnl
    · simp [hq]
  · intro q
    simp only [List.mem_append, List.mem_singleton]
    by_cases hq : q = pos
    · simp [hq]
    · simp [hq]

theorem placed_load (h : Placed t w) (now : Int) (hit : (w.scales s).loadingNodes[it]? = some pos)
    (hat : w.At s pos a n) (hst : n.state = .loading) :
    Placed t ((finishLoad t s now w a n.position).eraseLoading s it) := by
  have hpos := h.position hat
  have hpl : w.place a = some (pos, .loading) := by rw [place_of_heap hat.heap, hpos, hst]
  have hs := (Placement.live h hat.find).1
  have hplace : ((finishLoad t s now w a n.position).eraseLoading s it).place =
      Function.update w.place a (some (pos, .loaded)) := by
    rw [← hpos]
    exact place_finishLoad t s now hat.heap
  have hscales : ((finishLoad t s now w a n.position).eraseLoading s it).scales =
      Function.update w.scales s
        { w.scales s with
          nodes := (w.scales s).nodes.insert pos (some a)
          loadingNodes := (w.scales s).loadingNodes.eraseIdx it } := by
    simp only [World.eraseLoading, World.scales_setScale, scales_finishLoad, hpos,
      Function.update_self, Function.update_idem]
  have hnu : pos ∉ (w.scales s).unloadingNodes := by
    rw [Placement.mem_unloading h hat.find hpl]; simp
  unfold Placed
  rw [hplace, hscales]
  refine Placement.change h (some .loaded) hs (Or.inl hat.find) ?_ ?_ ?_ ?_ ?_ ?_ ?_
  · rintro x ⟨⟩; exact Or.inr (Or.inl rfl)
  · exact AList.lookup_insert _
  · intro q hq; exact AList.lookup_insert_ne hq
  · exact (Placement.loadingNodup h s).eraseIdx it
  · exact Placement.unloadingNodup h s
  · intro q
    rw [mem_eraseIdx (Placement.loadingNodup h s) hit]
    by_cases hq : q = pos
    · simp [hq]
    · simp [hq]
  · intro q
    by_cases hq : q = pos
    · subst hq; simpa using hnu
    · simp [hq]

theorem placed_destroy (h : Placed t w) (hit : (w.scales s).unloadingNodes[it]? = some pos)
    (hat : w.At s pos a n) (hst : n.state = .unloading) :
    Placed t ((finishUnload t s w a n.position).eraseUnloading s it) := by
  have hpos := h.position hat
  have hpl : w.place a = some (pos, .unloading) := by rw [place_of_heap hat.heap, hpos, hst]
  have hs := (Placement.live h hat.find).1
  have hplace : ((finishUnload t s w a n.position).eraseUnloading s it).place =
      Function.update w.place a none := place_finishUnload t s w a n.position
  have hscales : ((finishUnload t s w a n.position).eraseUnloading s it).scales =
      Function.update w.scales s
        { w.scales s with
          nodes := (w.scales s).nodes.erase pos
          unloadingNodes := (w.scales s).unloadingNodes.eraseIdx it } := by
    simp only [World.eraseUnloading, World.scales_setScale, scales_finishUnload, hpos,
      Function.update_self, Function.update_idem]
  have hnl : pos ∉ (w.scales s).loadingNodes := by
    rw [Placement.mem_loading h hat.find hpl]; simp
  unfold Placed
  rw [hplace, hscales]
  refine Placement.change h none hs (Or.inl hat.find) ?_ ?_ ?_ ?_ ?_ ?_ ?_
  · rintro x ⟨⟩
  · exact AList.lookup_erase _ _
  · intro q hq; exact AList.lookup_erase_ne hq
  · exact Placement.loadingNodup h s
  · exact (Placement.unloadingNodup h s).eraseIdx it
  · intro q
    by_cases hq : q = pos
    · subst hq; simpa using hnl
    · simp [hq]
  · intro q
    rw [mem_eraseIdx (Placement.unloadingNodup h s) hit]
    by_cases hq : q = pos
    · simp [hq]
    · simp [hq]

theorem placed_keep (h : Placed t w) (hs : w'.scales = w.scales) (hp : w'.place = w.place) :
    Placed t w' := by
  unfold Placed
  rw [hs, hp]
  exact h

theorem place_finishWrite {τ : Nat} (hn : w.heap a = some n) :
    (w.finishWrite a τ).place = w.place :=
  place_modify_keep (w := w.freeTask τ) hn rfl rfl

theorem at_finishWrite {τ : Nat} (hat : w.At s pos a n) :
    (w.finishWrite a τ).At s pos a { n with taskState := .writeDone, task := none } where
  find := hat.find
  heap := by
    simp only [World.finishWrite, World.heap_modify, Function.update_self]
    exact congrArg _ hat.heap

theorem effect_placed {tr tr' : List Event} (h : Placed t w)
    (he : Effect t G (w, tr) (w', tr')) : Placed t w' := by
  cases he with
  | touch now hat => exact placed_keep h rfl (place_modify_keep hat.heap rfl rfl)
  | edit body hat => exact placed_keep h rfl (place_modify_keep hat.heap rfl rfl)
  | create now hs hfind ha => exact placed_create h now hs hfind ha
  | mark hat hst => exact placed_mark h hat hst
  | unloadWorld => exact placed_keep h rfl rfl
  | startRead hat _ _ _ _ _ =>
    exact placed_keep h rfl (place_modify_keep (w := w.addNativeTask _ _ _) hat.heap rfl rfl)
  | finishRead seed hat _ _ _ _ _ _ _ =>
    exact placed_keep h rfl (place_modify_keep (w := w.freeTask _) hat.heap rfl rfl)
  | load now _ hit hat hst _ => exact placed_load h now hit hat hst
  | startWrite hat _ _ _ _ _ =>
    exact placed_keep h rfl (place_modify_keep (w := w.addNativeTask _ _ _) hat.heap rfl rfl)
  | destroy _ hit hat hst _ => exact placed_destroy h hit hat hst
  | @destroyWritten _ _ _ _ _ _ _ τ _ hs hit hat hst =>
    have hw : Placed t (w.finishWrite _ τ) := placed_keep h rfl (place_finishWrite hat.heap)
    have hd := placed_destroy hw hit (at_finishWrite hat) hst
    exact hd
  | performRead outcome _ _ _ _ _ _ => exact placed_keep h rfl rfl
  | performWrite outcome _ _ _ _ _ _ => exact placed_keep h rfl rfl
  | finish _ _ _ => exact placed_keep h rfl rfl

end CosmicArchitect.Spatial3D
