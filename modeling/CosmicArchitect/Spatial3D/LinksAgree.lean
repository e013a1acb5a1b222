import CosmicArchitect.Spatial3D.LinkInvariant

/-!
# Link consistency

The links of a world in the terms of the node fields: pointers, masks and parent index.
-/

namespace CosmicArchitect.Spatial3D
open Library

variable {D : Type} {t : TypeData D} {db : NodeCoord → Option Serialize.Bytes} {m : State D}
  {w : World D} {s s' : Nat} {pos pos' : Vector3i} {a b : Nat} {n l : Node D}

/-- `b` is the node stored at `pos` in scale `s`, and it is allocated. -/
def World.Stores (w : World D) (s : Nat) (pos : Vector3i) (b : Nat) : Prop :=
  ∃ l, w.At s pos b l

/- What the link fields of the stored nodes say. A node is linked from its load on, so two
   nodes are known to be linked when both of them left the state Loading. -/
structure World.LinksAgree (w : World D) : Prop where
  parent : ∀ s pos a n b, w.At s pos a n → n.parent = some b → w.Stores (s + 1) (pos.shr 1) b
  child : ∀ s pos a n i b, w.At s pos a n → n.children i = some b →
    i < 8 ∧ 0 < s ∧ w.Stores (s - 1) (pos.shl 1 + nodeChildOffsets i) b
  neighbour : ∀ s pos a n i b, w.At s pos a n → n.neighbours i = some b →
    i < 6 ∧ w.Stores s (pos + nodeNeighbourOffsets i) b
  neighbourSymm : ∀ s pos a n s' pos' b l i, w.At s pos a n → w.At s' pos' b l → i < 6 →
    (n.neighbours i = some b ↔ l.neighbours (5 - i) = some a)
  childSymm : ∀ s pos a n s' pos' b l i, w.At s pos a n → w.At s' pos' b l →
    (n.children i = some b ↔ l.parent = some a ∧ l.parentIndex = i)
  childrenMask : ∀ s pos a n i, w.At s pos a n → i < 8 →
    (n.childrenMask.getLsbD i = true ↔ n.children i ≠ none)
  neighbourMask : ∀ s pos a n i, w.At s pos a n → i < 6 →
    (n.neighbourMask.getLsbD i = true ↔ n.neighbours i ≠ none)
  parentIndex : ∀ s pos a n, w.At s pos a n →
    (n.parentIndex = kNodeNoParent ↔ n.parent = none)
  adjacent : ∀ s pos a n b l i, w.At s pos a n → i < 6 →
    w.At s (pos + nodeNeighbourOffsets i) b l → n.state ≠ .loading → l.state ≠ .loading →
    n.neighbours i = some b ∧ l.neighbours (5 - i) = some a
  nested : ∀ s pos a n b l i, w.At (s + 1) pos a n → i < 8 →
    w.At s (pos.shl 1 + nodeChildOffsets i) b l → n.state ≠ .loading → l.state ≠ .loading →
    n.children i = some b ∧ l.parent = some a ∧ l.parentIndex = i

theorem joined_of_at (hat : w.At s pos a n) (hst : n.state ≠ .loading) : w.joined a ⟨pos, s⟩ :=
  ⟨n.cell a, cell_of_at hat, rfl, hst⟩

namespace Linked
variable (h : Linked t w)
include h

theorem lead (hat : w.At s pos a n) {d : Dir} (hl : n.link d = some b) :
    ∃ q l, destination ⟨pos, s⟩ d = some q ∧ w.At q.scaleIndex q.position b l ∧
      l.link (opposite ⟨pos, s⟩ d) = some a := by
  have hlink : w.links a d = some b := (links_of_heap hat.heap d).trans hl
  have ha : (site h.placed.grid).stands a ⟨pos, s⟩ := stands_of_at hat
  obtain ⟨p, q, hap, hq, hbq⟩ := h.consistent.aim hlink
  cases (site h.placed.grid).unique hap ha
  obtain ⟨l, hlat⟩ := at_of_stands hbq
  have hback := h.consistent.paired ha hlink
  rw [links_of_heap hlat.heap] at hback
  exact ⟨q, l, hq, hlat, hback⟩

theorem same (hat : w.At s pos a n) (hat' : w.At s' pos' a l) : s = s' ∧ pos = pos' ∧ n = l := by
  obtain ⟨hs, hp⟩ := h.placed.grid.unique hat.find hat'.find
  exact ⟨hs, hp, Option.some.inj (hat.heap.symm.trans hat'.heap)⟩

theorem turn (hat : w.At s pos a n) {d : Dir} (hl : n.link d = some b)
    (hat' : w.At s' pos' b l) :
    destination ⟨pos, s⟩ d = some ⟨pos', s'⟩ ∧ l.link (opposite ⟨pos, s⟩ d) = some a := by
  obtain ⟨q, l', hq, hlat, hback⟩ := h.lead hat hl
  obtain ⟨rfl, rfl, rfl⟩ := h.same hlat hat'
  exact ⟨hq, hback⟩

theorem linked (hat : w.At s pos a n) (hat' : w.At s' pos' b l) (hn : n.state ≠ .loading)
    (hl : l.state ≠ .loading) {d : Dir} (hd : destination ⟨pos, s⟩ d = some ⟨pos', s'⟩) :
    n.link d = some b := by
  rw [← links_of_heap hat.heap]
  exact h.complete (joined_of_at hat hn) (joined_of_at hat' hl) hd

theorem parentIndex_of_parent (hat : w.At s pos a n) (hp : n.parent = some b) :
    n.parentIndex = getNodeParentIndex pos := by
  have ht := (h.tidy a n hat.heap).parent
  rw [hp, Option.isSome_some, if_pos rfl, h.placed.grid.position hat] at ht
  exact ht

theorem neighbour_lead (hat : w.At s pos a n) {i : Nat} (hi : n.neighbours i = some b) :
    i < 6 ∧ w.Stores s (pos + nodeNeighbourOffsets i) b := by
  obtain ⟨q, l, hq, hlat, -⟩ := h.lead hat (d := .neighbour i) hi
  simp only [destination] at hq
  split at hq
  · next hlt =>
    cases hq
    exact ⟨hlt, l, hlat⟩
  · cases hq

theorem child_lead (hat : w.At s pos a n) {i : Nat} (hi : n.children i = some b) :
    i < 8 ∧ 0 < s ∧ w.Stores (s - 1) (pos.shl 1 + nodeChildOffsets i) b := by
  obtain ⟨q, l, hq, hlat, -⟩ := h.lead hat (d := .child i) hi
  simp only [destination] at hq
  split at hq
  · next hlt =>
    cases hq
    exact ⟨hlt.1, hlt.2, l, hlat⟩
  · cases hq

theorem parent_lead (hat : w.At s pos a n) (hp : n.parent = some b) :
    w.Stores (s + 1) (pos.shr 1) b := by
  obtain ⟨q, l, hq, hlat, -⟩ := h.lead hat (d := .parent) hp
  cases hq
  exact ⟨l, hlat⟩

theorem neighbour_back (hat : w.At s pos a n) (hat' : w.At s' pos' b l) {i : Nat}
    (hi : n.neighbours i = some b) : l.neighbours (5 - i) = some a :=
  (h.turn hat (d := .neighbour i) hi hat').2

theorem child_back (hat : w.At s pos a n) (hat' : w.At s' pos' b l) {i : Nat}
    (hi : n.children i = some b) : l.parent = some a ∧ l.parentIndex = i := by
  obtain ⟨hd, hback⟩ := h.turn hat (d := .child i) hi hat'
  have hp : l.parent = some a := hback
  have hlt := (h.child_lead hat hi).1
  simp only [destination, if_pos (And.intro hlt (h.child_lead hat hi).2.1)] at hd
  cases hd
  exact ⟨hp, (h.parentIndex_of_parent hat' hp).trans (parentIndex_of_child pos hlt)⟩

theorem parent_back (hat : w.At s pos a n) (hat' : w.At s' pos' b l) (hp : n.parent = some b) :
    l.children n.parentIndex = some a := by
  rw [h.parentIndex_of_parent hat hp]
  exact (h.turn hat (d := .parent) hp hat').2

theorem linksAgree : w.LinksAgree where
  parent s pos a n b hat hp := h.parent_lead hat hp
  child s pos a n i b hat hi := h.child_lead hat hi
  neighbour s pos a n i b hat hi := h.neighbour_lead hat hi
  neighbourSymm := by
    intro s pos a n s' pos' b l i hat hat' hi
    constructor
    · exact h.neighbour_back hat hat'
    · intro hback
      have hforth := h.neighbour_back hat' hat hback
      have hflip : 5 - (5 - i) = i := by omega
      rw [hflip] at hforth
      exact hforth
  childSymm := by
    intro s pos a n s' pos' b l i hat hat'
    constructor
    · exact h.child_back hat hat'
    · intro hback
      have hforth := h.parent_back hat' hat hback.1
      rw [hback.2] at hforth
      exact hforth
  childrenMask s pos a n i hat hi := by
    rw [(h.tidy a n hat.heap).children i hi, Option.isSome_iff_ne_none]
  neighbourMask s pos a n i hat hi := by
    rw [(h.tidy a n hat.heap).neighbours i hi, Option.isSome_iff_ne_none]
  parentIndex := by
    intro s pos a n hat
    have ht := (h.tidy a n hat.heap).parent
    have hlt := getNodeParentIndex_lt n.position
    cases hp : n.parent with
    | none =>
      rw [hp] at ht
      exact ⟨fun _ => rfl, fun _ => ht⟩
    | some b =>
      rw [hp, Option.isSome_some, if_pos rfl] at ht
      have hne : n.parentIndex ≠ kNodeNoParent := by
        rw [ht, kNodeNoParent]
        omega
      exact ⟨fun hc => absurd hc hne, fun hc => by cases hc⟩
  adjacent := by
    intro s pos a n b l i hat hi hat' hn hl
    have hd : destination ⟨pos, s⟩ (.neighbour i) = some ⟨pos + nodeNeighbourOffsets i, s⟩ := by
      simp only [destination, if_pos hi]
    have hlink : n.neighbours i = some b := h.linked hat hat' hn hl hd
    exact ⟨hlink, h.neighbour_back hat hat' hlink⟩
  nested := by
    intro s pos a n b l i hat hi hat' hn hl
    have hd : destination ⟨pos, s + 1⟩ (.child i) =
        some ⟨pos.shl 1 + nodeChildOffsets i, s⟩ := by
      simp only [destination, if_pos (And.intro hi (Nat.succ_pos s)), Nat.add_sub_cancel]
    have hlink : n.children i = some b := h.linked hat hat' hn hl hd
    exact ⟨hlink, h.child_back hat hat' hlink⟩

end Linked

theorem linked_initial (t : TypeData D) (db : NodeCoord → Option Serialize.Bytes) :
    Linked t (initial D db).world where
  placed := Placement.initial t.maxScale
  consistent := by
    constructor
    · intro x d y hxy
      cases hxy
    · intro x p d y _ hxy
      cases hxy
  complete hx := by
    obtain ⟨k, hk, -⟩ := hx
    cases hk
  tidy _ _ hn := by cases hn

theorem reach_linked (h : (worldMachine t db).Reachable m) : Linked t m.world :=
  (reach_invariant (I := fun c => Linked t c.1) (linked_initial t db)
    (fun _ hc he => effect_linked hc he) (reach_any h)).2

/-- In every reachable state the links of the stored nodes agree with the maps. -/
theorem links_agree (h : (worldMachine t db).Reachable m) : m.world.LinksAgree :=
  (reach_linked h).linksAgree

/-- The load of the only node in scale `s` that has a load command. -/
def loadAlone {D : Type} (s τ : Nat) : List (Label D) :=
  [.worldDoNodeLoadCommands 0] ++ List.replicate s (.next τ 0) ++
    [.next τ 0, .perform 0 .ok, .finish 0] ++ List.replicate (16 - s + 1) (.next 9 0) ++
    [.worldDoNodeLoadCommands 1] ++ List.replicate s (.next 9 0) ++
    List.replicate (16 - s + 2) (.next 9 0) ++
    [.worldDoNodeLoadCommands 2] ++ List.replicate s (.next 9 0) ++
    List.replicate (16 - s + 2) (.next 9 0)

/-- Two neighbours on both sides of the origin and the parent of the second are loaded. -/
def linkRun {D : Type} : List (Label D) :=
  [.touchNode 0 ⟨0, 0, 0⟩ 0 0] ++ loadAlone 0 0 ++ [.touchNode 0 ⟨-1, 0, 0⟩ 0 1] ++
    loadAlone 0 1 ++ [.touchNode 1 ⟨-1, 0, 0⟩ 0 2] ++ loadAlone 1 2

theorem links_agree_linkRun :
    ∃ m, (worldMachine Universe.galaxyType fun _ => none).exec (initial _ fun _ => none)
        linkRun = some m ∧ m.world.LinksAgree ∧
      m.world.links 0 (.neighbour 0) = some 1 ∧ m.world.links 1 .parent = some 2 := by
  have hrun : ((worldMachine Universe.galaxyType fun _ => none).exec (initial _ fun _ => none)
      linkRun).map (fun m => (m.world.links 0 (.neighbour 0), m.world.links 1 .parent)) =
        some (some 1, some 2) := by decide +kernel
  obtain ⟨m, hm, hlinks⟩ := Option.map_eq_some_iff.mp hrun
  exact ⟨m, hm, links_agree (Machine.reachable_of_exec rfl hm), congrArg Prod.fst hlinks,
    congrArg Prod.snd hlinks⟩

end CosmicArchitect.Spatial3D
