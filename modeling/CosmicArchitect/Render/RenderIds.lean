import CosmicArchitect.Library.Holdings
import CosmicArchitect.Render.RenderAllocator

/-!
# A render id has one owner

Every id that was created is in the pool of its type, in the list of one allocator or handed
out, and nowhere else.
-/

namespace CosmicArchitect.Render
namespace AllocatorServer
open Library Holdings

variable {m m' : AllocatorServer} {l : Label}

/-- Who has an id. -/
inductive Holder
  | pool
  | allocator (a : AllocatorId)
  | handedOut
deriving DecidableEq, Repr

/-- The ids of a type that somebody has. -/
def place (pools : RIDLists) (allocators : AllocatorId → Option RIDLists)
    (handedOut : RIDLists) : Holder × RIDType → List RID
  | (.pool, type) => pools type
  | (.allocator a, type) => ((allocators a).map fun rids => rids type).getD []
  | (.handedOut, type) => handedOut type

def held (m : AllocatorServer) : Holder × RIDType → List RID :=
  place m.pools m.allocators m.handedOut

/-- The lists of one allocator within those of all. -/
def within (m : AllocatorServer) (a : AllocatorId) (pools rids : RIDLists) :
    Holder × RIDType → List RID :=
  place pools (Function.update m.allocators a (some rids)) m.handedOut

theorem within_allocator (a : AllocatorId) (pools rids : RIDLists) (type : RIDType) :
    m.within a pools rids (.allocator a, type) = rids type := by
  rw [within, place, Function.update_self]
  rfl

theorem within_other {a : AllocatorId} {pools pools' rids rids' : RIDLists} {type : RIDType}
    (hpools : ∀ type', type' ≠ type → pools' type' = pools type')
    (hrids : ∀ type', type' ≠ type → rids' type' = rids type') (k : Holder × RIDType)
    (hpool : k ≠ (.pool, type)) (hallocator : k ≠ (.allocator a, type)) :
    m.within a pools' rids' k = m.within a pools rids k := by
  obtain ⟨holder, type'⟩ := k
  cases holder with
  | pool => exact hpools type' fun h => hpool (by rw [h])
  | allocator b =>
    by_cases hb : b = a
    · subst hb
      rw [within_allocator, within_allocator]
      exact hrids type' fun h => hallocator (by rw [h])
    · rw [within, within, place, place, Function.update_of_ne hb, Function.update_of_ne hb]
  | handedOut => rfl

/-! ### Giving and freeing ids -/

theorem take_drop_perm (l : List RID) (n : Nat) : l.Perm (l.take n ++ l.drop n) := by
  rw [List.take_append_drop]

/-- One round of `GetRIDs` moves ids from the pool of a type to the allocator. -/
theorem conserves_giveRIDs (m : AllocatorServer) (a : AllocatorId) (requested : RIDType → UInt16)
    (g : Giving) (type : RIDType) :
    Conserves Prod.snd (m.within a g.pools g.ridsOut) (m.within a (giveRIDs requested g type).pools
      (giveRIDs requested g type).ridsOut) := by
  rw [giveRIDs]
  simp only
  split
  · exact .refl _
  · next hneeded =>
    generalize giving type _ _ = count
    have hmoves : Moves (m.within a g.pools g.ridsOut)
        (m.within a
          (Function.update g.pools type
            ((g.pools type).take ((g.pools type).length - count)))
          (Function.update g.ridsOut type
            (g.ridsOut type ++ (g.pools type).drop ((g.pools type).length - count))))
        (.pool, type) (.allocator a, type)
        ((g.pools type).drop ((g.pools type).length - count)) := by
      refine ⟨by simp, ?_, ?_, ?_⟩
      · show (g.pools type).Perm (Function.update g.pools type _ type ++ _)
        rw [Function.update_self]
        exact take_drop_perm ..
      · rw [within_allocator, within_allocator, Function.update_self]
      · exact within_other (fun type' h => Function.update_of_ne h ..)
          fun type' h => Function.update_of_ne h ..
    exact hmoves.conserves rfl

theorem conserves_getRIDs (m : AllocatorServer) (a : AllocatorId) (requested : RIDType → UInt16)
    (pools rids : RIDLists) : Conserves Prod.snd (m.within a pools rids)
      (m.within a (getRIDs requested pools rids).pools (getRIDs requested pools rids).ridsOut) := by
  have hloop : ∀ (types : List RIDType) (g : Giving), Conserves Prod.snd (m.within a g.pools g.ridsOut)
      (m.within a (types.foldl (giveRIDs requested) g).pools
        (types.foldl (giveRIDs requested) g).ridsOut) := by
    intro types
    induction types with
    | nil => exact fun g => .refl _
    | cons type types ih =>
      intro g
      exact (conserves_giveRIDs m a requested g type).trans (ih _)
  rw [getRIDs]
  split
  · exact hloop RIDType.all { pools := pools, ridsOut := rids }
  · exact .refl _

/-- One round of `FreeRIDs` moves the ids of a type from the allocator to the pool. -/
theorem conserves_freeRIDs₁ (m : AllocatorServer) (a : AllocatorId) (s : RIDLists × RIDLists)
    (type : RIDType) :
    Conserves Prod.snd (m.within a s.1 s.2) (m.within a (freeRIDs₁ s type).1 (freeRIDs₁ s type).2) := by
  rw [freeRIDs₁]
  split
  · exact .refl _
  · have hmoves : Moves (m.within a s.1 s.2)
        (m.within a (Function.update s.1 type (s.1 type ++ s.2 type))
          (Function.update s.2 type [])) (.allocator a, type) (.pool, type) (s.2 type) := by
      refine ⟨by simp, ?_, ?_, fun k hallocator hpool => ?_⟩
      · rw [within_allocator, within_allocator, Function.update_self, List.nil_append]
      · show (Function.update s.1 type _ type).Perm _
        rw [Function.update_self]
        rfl
      · exact within_other (fun type' h => Function.update_of_ne h ..)
          (fun type' h => Function.update_of_ne h ..) k hpool hallocator
    exact hmoves.conserves rfl

theorem freeRIDs_loop (m : AllocatorServer) (a : AllocatorId) (types : List RIDType) :
    ∀ s, Conserves Prod.snd (m.within a s.1 s.2)
        (m.within a (types.foldl freeRIDs₁ s).1 (types.foldl freeRIDs₁ s).2) ∧
      ∀ type, type ∈ types ∨ s.2 type = [] → (types.foldl freeRIDs₁ s).2 type = [] := by
  induction types with
  | nil =>
    intro s
    refine ⟨.refl _, fun type h => ?_⟩
    rcases h with h | h
    · cases h
    · exact h
  | cons type types ih =>
    intro s
    obtain ⟨hconserves, hempty⟩ := ih (freeRIDs₁ s type)
    refine ⟨(conserves_freeRIDs₁ m a s type).trans hconserves, fun type' h => ?_⟩
    have hself : (freeRIDs₁ s type).2 type = [] := by
      rw [freeRIDs₁]
      split
      · next hnil => exact hnil
      · exact Function.update_self ..
    by_cases htype : type' = type
    · rw [htype]
      exact hempty type (Or.inr hself)
    · refine hempty type' ?_
      rcases h with h | h
      · exact Or.inl ((List.mem_cons.mp h).resolve_left htype)
      · refine Or.inr ?_
        rw [freeRIDs₁]
        split
        · exact h
        · exact (Function.update_of_ne htype ..).trans h

theorem within_self {a : AllocatorId} {rids : RIDLists} (h : m.allocators a = some rids) :
    m.within a m.pools rids = m.held := by
  rw [within, held, ← h, Function.update_eq_self]

theorem within_none {a : AllocatorId} (h : m.allocators a = none) :
    m.within a m.pools (fun _ => []) = m.held := by
  funext ⟨holder, type⟩
  cases holder with
  | pool => rfl
  | allocator b =>
    by_cases hb : b = a
    · subst hb
      rw [within_allocator, held, place, h]
      rfl
    · rw [within, held, place, place, Function.update_of_ne hb]
  | handedOut => rfl

theorem conserves_process {a : AllocatorId} {rids : RIDLists}
    (h : m.within a m.pools rids = m.held) : Conserves Prod.snd m.held (m.process a rids).held := by
  have hconserves := conserves_getRIDs m a (fun type => UInt16.ofNat (maxPreallocated type))
    m.pools rids
  rw [h] at hconserves
  rw [process]
  generalize getRIDs _ m.pools rids = g at hconserves ⊢
  split <;> exact hconserves

theorem conserves_destroyAllocator {a : AllocatorId} {rids : RIDLists}
    (h : m.allocators a = some rids) :
    Conserves Prod.snd m.held (m.destroyAllocator a rids).held := by
  obtain ⟨hconserves, hempty⟩ := freeRIDs_loop m a RIDType.all (m.pools, rids)
  have hheld : (m.destroyAllocator a rids).held =
      m.within a (freeRIDs m.pools rids).1 (freeRIDs m.pools rids).2 := by
    funext ⟨holder, type⟩
    cases holder with
    | pool => rfl
    | allocator b =>
      by_cases hb : b = a
      · subst hb
        rw [within_allocator]
        refine Eq.trans ?_ (hempty type (Or.inl (RIDType.mem_all type))).symm
        show ((Function.update m.allocators b none b).map _).getD [] = []
        rw [Function.update_self]
        rfl
      · show ((Function.update m.allocators a none b).map _).getD [] = _
        rw [within, place, Function.update_of_ne hb, Function.update_of_ne hb]
    | handedOut => rfl
  rw [hheld, ← within_self h]
  exact hconserves

theorem conserves_getRID {a : AllocatorId} {rids : RIDLists} (type : RIDType)
    (h : m.allocators a = some rids) : Conserves Prod.snd m.held (m.getRID a type rids).held := by
  rw [getRID]
  split
  · exact .refl _
  · next rid hlast =>
    have hsplit : (rids type).dropLast ++ [rid] = rids type :=
      List.dropLast_append_getLast? rid hlast
    have hmoves : Moves m.held ({ m with
        allocators := Function.update m.allocators a
          (some (Function.update rids type (rids type).dropLast))
        handedOut := Function.update m.handedOut type (m.handedOut type ++ [rid]) }.held)
        (.allocator a, type) (.handedOut, type) [rid] := by
      refine ⟨by simp, ?_, ?_, fun k hallocator hhanded => ?_⟩
      · rw [← within_self h, within_allocator]
        show (rids type).Perm (((Function.update m.allocators a _ a).map _).getD [] ++ [rid])
        rw [Function.update_self, Option.map_some, Option.getD_some, Function.update_self, hsplit]
      · show (Function.update m.handedOut type _ type).Perm (m.handedOut type ++ [rid])
        rw [Function.update_self]
      · obtain ⟨holder, type'⟩ := k
        cases holder with
        | pool => rfl
        | allocator b =>
          by_cases hb : b = a
          · subst hb
            show ((Function.update m.allocators b _ b).map _).getD [] = _
            rw [← within_self h, within_allocator, Function.update_self]
            exact Function.update_of_ne (fun htype => hallocator (by rw [htype])) ..
          · show ((Function.update m.allocators a _ b).map _).getD [] = _
            rw [Function.update_of_ne hb]
            rfl
        | handedOut => exact Function.update_of_ne (fun htype => hhanded (by rw [htype])) ..
    exact hmoves.conserves rfl

/-! ### The caps -/

/-- No list of an allocator is longer than what is created in advance. -/
def Capped (rids : RIDLists) : Prop := ∀ type, (rids type).length ≤ maxPreallocated type

theorem capped_update {rids : RIDLists} (h : Capped rids) (type : RIDType) {l : List RID}
    (hl : l.length ≤ maxPreallocated type) : Capped (Function.update rids type l) := by
  intro type'
  by_cases htype : type' = type
  · rw [htype, Function.update_self]
    exact hl
  · rw [Function.update_of_ne htype]
    exact h type'

theorem maxPreallocated_lt (type : RIDType) : maxPreallocated type < UInt16.size := by
  cases type <;> decide

/-- The subtraction of `GetRIDs` does not go below zero. -/
theorem needed_of_capped {rids : RIDLists} (h : Capped rids) (type : RIDType) :
    needed (UInt16.ofNat (maxPreallocated type)) (rids type).length =
      maxPreallocated type - (rids type).length := by
  have hle := h type
  have hlt := maxPreallocated_lt type
  have h16 : UInt16.size = 65536 := rfl
  have h64 : UInt64.size = 18446744073709551616 := rfl
  rw [needed, UInt16.toNat_ofNat_of_lt' hlt, h64]
  omega

theorem giving_le (type : RIDType) (needed available : Nat) :
    giving type needed available ≤ needed ∧ giving type needed available ≤ available := by
  rw [giving]
  split <;> omega

theorem capped_giveRIDs {g : Giving} (h : Capped g.ridsOut) (type : RIDType) :
    Capped (giveRIDs (fun type => UInt16.ofNat (maxPreallocated type)) g type).ridsOut := by
  rw [giveRIDs]
  simp only
  split
  · exact h
  · refine capped_update h type ?_
    rw [needed_of_capped h type, List.length_append, List.length_drop]
    have hle := h type
    have hgiving := giving_le type (maxPreallocated type - (g.ridsOut type).length)
      (g.pools type).length
    omega

theorem capped_getRIDs (pools : RIDLists) {rids : RIDLists} (h : Capped rids) :
    Capped (getRIDs (fun type => UInt16.ofNat (maxPreallocated type)) pools rids).ridsOut := by
  have hloop : ∀ (types : List RIDType) (g : Giving), Capped g.ridsOut → Capped
      (types.foldl (giveRIDs fun type => UInt16.ofNat (maxPreallocated type)) g).ridsOut := by
    intro types
    induction types with
    | nil => exact fun g hg => hg
    | cons type types ih => exact fun g hg => ih _ (capped_giveRIDs hg type)
  rw [getRIDs]
  split
  · exact hloop RIDType.all _ h
  · exact h

/-! ### The invariant -/

structure OneOwner (m : AllocatorServer) : Prop where
  exclusive : Exclusive m.held
  created : ∀ type rid, (type, rid) ∈ m.created ↔ Held Prod.snd m.held type rid
  capped : ∀ a rids, m.allocators a = some rids → Capped rids

/-- The rendering server creates an id that it has not created before. -/
def FreshIds (m : AllocatorServer) : Label → Prop
  | .render rid => rid ∉ m.created.map Prod.snd
  | _ => True

instance (m : AllocatorServer) (l : Label) : Decidable (FreshIds m l) := by
  cases l <;> unfold FreshIds <;> infer_instance

theorem oneOwner_conserves (h : OneOwner m) (hheld : Conserves Prod.snd m.held m'.held)
    (hcreated : m'.created = m.created)
    (hcapped : ∀ a rids, m'.allocators a = some rids → Capped rids) : OneOwner m' where
  exclusive := hheld.exclusive h.exclusive
  created type rid := by rw [hcreated, h.created, hheld.held]
  capped := hcapped

theorem capped_allocators (h : OneOwner m) {a : AllocatorId} {rids : RIDLists}
    (hrids : Capped rids) :
    ∀ b rids', Function.update m.allocators a (some rids) b = some rids' → Capped rids' := by
  intro b rids' hb
  by_cases hba : b = a
  · rw [hba, Function.update_self, Option.some_inj] at hb
    rw [← hb]
    exact hrids
  · rw [Function.update_of_ne hba] at hb
    exact h.capped b rids' hb

theorem oneOwner_process (h : OneOwner m) {a : AllocatorId} {rids : RIDLists}
    (hwithin : m.within a m.pools rids = m.held) (hrids : Capped rids) :
    OneOwner (m.process a rids) := by
  have hconserves := conserves_process hwithin
  have hcapped := capped_getRIDs m.pools hrids
  rw [process] at hconserves ⊢
  generalize getRIDs _ m.pools rids = g at hconserves hcapped ⊢
  split at hconserves
  · next hgiven =>
    rw [if_pos hgiven]
    exact oneOwner_conserves h hconserves rfl (capped_allocators h hcapped)
  · next hgiven =>
    rw [if_neg hgiven]
    exact oneOwner_conserves h hconserves rfl (capped_allocators h hcapped)

theorem oneOwner_getRID (h : OneOwner m) {a : AllocatorId} {rids : RIDLists} (type : RIDType)
    (ha : m.allocators a = some rids) : OneOwner (m.getRID a type rids) := by
  have hconserves := conserves_getRID type ha
  rw [getRID] at hconserves ⊢
  split at hconserves
  · exact h
  · refine oneOwner_conserves h hconserves rfl (capped_allocators h ?_)
    refine capped_update (h.capped a rids ha) type ?_
    rw [List.length_dropLast]
    exact Nat.le_trans (Nat.sub_le ..) (h.capped a rids ha type)

theorem oneOwner_destroyAllocator (h : OneOwner m) {a : AllocatorId} {rids : RIDLists}
    (ha : m.allocators a = some rids) : OneOwner (m.destroyAllocator a rids) := by
  refine oneOwner_conserves h (conserves_destroyAllocator ha) rfl fun b rids' hb => ?_
  have hb' : Function.update m.allocators a none b = some rids' := hb
  by_cases hba : b = a
  · rw [hba, Function.update_self] at hb'
    cases hb'
  · rw [Function.update_of_ne hba] at hb'
    exact h.capped b rids' hb'

theorem oneOwner_create (h : OneOwner m) (type : RIDType) {rid : RID}
    (hfresh : rid ∉ m.created.map Prod.snd) :
    OneOwner { m with
      pools := Function.update m.pools type (m.pools type ++ [rid])
      created := (type, rid) :: m.created } := by
  have hadds : Adds m.held { m with
      pools := Function.update m.pools type (m.pools type ++ [rid])
      created := (type, rid) :: m.created }.held (.pool, type) rid := by
    refine ⟨?_, fun k hk => ?_⟩
    · show (Function.update m.pools type _ type).Perm (m.pools type ++ [rid])
      rw [Function.update_self]
    · obtain ⟨holder, type'⟩ := k
      cases holder with
      | pool => exact Function.update_of_ne (fun htype => hk (by rw [htype])) ..
      | allocator b => rfl
      | handedOut => rfl
  have hnew : ∀ k, rid ∉ m.held k := fun k hk =>
    hfresh (List.mem_map.mpr ⟨(k.2, rid), (h.created k.2 rid).mpr ⟨k, rfl, hk⟩, rfl⟩)
  refine ⟨hadds.exclusive h.exclusive hnew, fun type' rid' => ?_, h.capped⟩
  rw [hadds.held, List.mem_cons, Prod.mk.injEq, h.created]

theorem oneOwner_renderNext (h : OneOwner m) {rid : RID}
    (hfresh : rid ∉ m.created.map Prod.snd) (place : RenderPlace) :
    OneOwner (m.renderNext rid place) := by
  cases place with
  | anyRequired types =>
    cases types with
    | nil => exact ⟨h.exclusive, h.created, h.capped⟩
    | cons type types =>
      rw [renderNext]
      split <;> exact ⟨h.exclusive, h.created, h.capped⟩
  | fill types =>
    cases types with
    | nil => exact ⟨h.exclusive, h.created, h.capped⟩
    | cons type types =>
      rw [renderNext]
      split
      · exact oneOwner_create h type hfresh
      · exact ⟨h.exclusive, h.created, h.capped⟩
  | allocated => exact ⟨h.exclusive, h.created, h.capped⟩
  | free => exact ⟨h.exclusive, h.created, h.capped⟩
  | deallocated => exact ⟨h.exclusive, h.created, h.capped⟩

theorem oneOwner_step (h : OneOwner m) (hg : FreshIds m l) (hs : step m l = some m') :
    OneOwner m' := by
  cases l with
  | requestRIDs =>
    obtain ⟨_, ⟨⟩⟩ := Option.ite_none_right_eq_some.mp hs
    exact ⟨h.exclusive, h.created, h.capped⟩
  | allocator a =>
    obtain ⟨_, hs⟩ := Option.ite_none_right_eq_some.mp hs
    obtain ⟨hnone, hs⟩ := Option.ite_none_right_eq_some.mp hs
    rw [← Option.some.inj hs]
    exact oneOwner_process h (within_none hnone) fun _ => Nat.zero_le _
  | process a =>
    obtain ⟨_, hs⟩ := Option.ite_none_right_eq_some.mp hs
    obtain ⟨rids, ha, rfl⟩ := Option.map_eq_some_iff.mp hs
    exact oneOwner_process h (within_self ha) (h.capped a rids ha)
  | getRID a type =>
    obtain ⟨_, hs⟩ := Option.ite_none_right_eq_some.mp hs
    obtain ⟨rids, ha, rfl⟩ := Option.map_eq_some_iff.mp hs
    exact oneOwner_getRID h type ha
  | destroyAllocator a =>
    obtain ⟨_, hs⟩ := Option.ite_none_right_eq_some.mp hs
    obtain ⟨rids, ha, rfl⟩ := Option.map_eq_some_iff.mp hs
    exact oneOwner_destroyAllocator h ha
  | requester i =>
    obtain ⟨r, _, rfl⟩ := Option.map_eq_some_iff.mp hs
    cases r with
    | load =>
      rw [requesterNext]
      split <;> exact ⟨h.exclusive, h.created, h.capped⟩
    | schedule => exact ⟨h.exclusive, h.created, h.capped⟩
    | count => exact ⟨h.exclusive, h.created, h.capped⟩
  | renderBegin =>
    rw [step, renderBegin] at hs
    split at hs <;> cases hs <;> exact ⟨h.exclusive, h.created, h.capped⟩
  | render rid =>
    obtain ⟨place, _, rfl⟩ := Option.map_eq_some_iff.mp hs
    exact oneOwner_renderNext h hg place
  | destructor =>
    rw [step, destructorNext] at hs
    split at hs
    · obtain ⟨_, ⟨⟩⟩ := Option.ite_none_right_eq_some.mp hs
      exact ⟨h.exclusive, h.created, h.capped⟩
    · cases hs
      exact ⟨h.exclusive, h.created, h.capped⟩
    · cases hs
      split <;> exact ⟨h.exclusive, h.created, h.capped⟩
    · cases hs

theorem held_init : ({} : AllocatorServer).held = fun _ => [] := by
  funext ⟨holder, type⟩
  cases holder <;> rfl

theorem oneOwner_init : OneOwner {} where
  exclusive := by
    rw [held_init]
    exact ⟨fun _ => List.nodup_nil, fun _ _ _ hx => (by cases hx)⟩
  created type rid := by
    rw [held_init]
    exact iff_of_false (fun h => by cases h) fun ⟨_, _, h⟩ => by cases h
  capped _ _ h := by cases h

theorem oneOwner_reach (h : allocatorMachine.Reach FreshIds m) : OneOwner m := by
  refine h.invariant (I := OneOwner) (fun s hi => ?_)
    fun _ _ _ _ ih hg hs => oneOwner_step ih hg hs
  rw [show s = _ from hi]
  exact oneOwner_init

/-! ### Each id has one owner -/

/-- Where the ids are. -/
structure OwnedOnce (m : AllocatorServer) : Prop where
  owner : ∀ type rid, (type, rid) ∈ m.created → ∃ holder, (m.held (holder, type)).count rid = 1 ∧
    ∀ k, rid ∈ m.held k → k = (holder, type)
  created : ∀ holder type rid, rid ∈ m.held (holder, type) → (type, rid) ∈ m.created
  capped : ∀ a rids, m.allocators a = some rids → ∀ type,
    (rids type).length ≤ maxPreallocated type ∧
      needed (UInt16.ofNat (maxPreallocated type)) (rids type).length =
        maxPreallocated type - (rids type).length

/-- When all created ids are fresh, each has one owner, and no list of an allocator is longer
than what is created in advance. -/
theorem ids_ownedOnce (m : AllocatorServer) (h : allocatorMachine.Reach FreshIds m) :
    OwnedOnce m := by
  have howner := oneOwner_reach h
  refine ⟨fun type rid hrid => ?_, fun holder type rid hrid => ?_, fun a rids ha type => ?_⟩
  · obtain ⟨⟨holder, type'⟩, htype, hk⟩ := (howner.created type rid).mp hrid
    cases htype
    refine ⟨holder, List.count_eq_one_of_mem (howner.exclusive.nodup _) hk, fun k hk' => ?_⟩
    exact howner.exclusive.unique _ _ rid hk' hk
  · exact (howner.created type rid).mpr ⟨(holder, type), rfl, hrid⟩
  · have hcapped := howner.capped a rids ha
    exact ⟨hcapped type, needed_of_capped hcapped type⟩

/-- An allocator, and the first ids that are created for it. -/
def createRun : List Label :=
  [.allocator 0, .requestRIDs, .requester 0, .requester 0, .renderBegin, .render 7, .requester 0,
    .render 7, .render 8, .getRID 0 .mesh]

theorem ids_ownedOnce_createRun : ∃ m, allocatorMachine.exec {} createRun = some m ∧
    OwnedOnce m := by
  have hexec : (allocatorMachine.exec {} createRun).isSome = true ∧
      allocatorMachine.Follows FreshIds {} createRun := by decide +kernel
  obtain ⟨m, hm⟩ := Option.isSome_iff_exists.mp hexec.1
  exact ⟨m, hm, ids_ownedOnce m (Machine.Reach.exec (.init rfl) hexec.2 hm)⟩

end AllocatorServer
end CosmicArchitect.Render
