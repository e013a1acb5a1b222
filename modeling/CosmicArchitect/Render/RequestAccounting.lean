import CosmicArchitect.Render.RenderAllocator
import Mathlib.Data.List.Basic

/-!
# The requests of the allocator server

`m_requests` counts the calls for the render thread that are not completed, as long as no
`AllocateRIDsInternal` returns early: that path leaves `m_requests` as it is.
-/

namespace CosmicArchitect.Render
namespace AllocatorServer
open Library

variable {m m' : AllocatorServer} {l : Label}

/-- The calls that are scheduled and not yet completed. -/
def pending (m : AllocatorServer) : Nat :=
  m.renderQueue.length + if m.rendering.isSome then 1 else 0

/-- The callers that have scheduled a call and not yet counted it. -/
def uncounted (m : AllocatorServer) : Nat :=
  m.requesters.count .count + if m.destructor = .count then 1 else 0

/-- `m_requests` and the callers that are about to increment it make up the pending calls. -/
def Accounted (m : AllocatorServer) : Prop :=
  m.requests + UInt64.ofNat m.uncounted = UInt64.ofNat m.pending

/-- `AnyRequired` has found every pool filled, and `AllocateRIDsInternal` returns. -/
def ReturnsEarly (m : AllocatorServer) : Label → Prop
  | .render _ => m.rendering = some (.anyRequired [])
  | _ => False

instance (m : AllocatorServer) (l : Label) : Decidable (ReturnsEarly m l) :=
  match l with
  | .render _ => Option.instDecidableEq m.rendering (some (.anyRequired []))
  | .requestRIDs | .allocator _ | .process _ | .getRID _ _ | .destroyAllocator _ | .requester _
  | .renderBegin | .destructor => isFalse id

def NoEarlyReturn (m : AllocatorServer) (l : Label) : Prop := ¬ ReturnsEarly m l

instance (m : AllocatorServer) (l : Label) : Decidable (NoEarlyReturn m l) :=
  inferInstanceAs (Decidable (¬ _))

/-! ### One step -/

theorem count_eraseIdx {α : Type} [DecidableEq α] {a : α} (b : α) (l : List α) :
    ∀ {i : Nat}, l[i]? = some a →
      l.count b = (l.eraseIdx i).count b + if a = b then 1 else 0 := by
  induction l with
  | nil => exact fun h => (by cases h)
  | cons c l ih =>
    intro i h
    cases i with
    | zero =>
      rw [List.getElem?_cons_zero, Option.some_inj] at h
      rw [List.eraseIdx_cons_zero, List.count_cons, h]
      simp only [beq_iff_eq]
    | succ i =>
      rw [List.getElem?_cons_succ] at h
      rw [List.eraseIdx_cons_succ, List.count_cons, List.count_cons, ih h]
      omega

/-- What a step does to the numbers of calls, in the arithmetic of `size_t`. -/
def Balance (early : UInt64) (m m' : AllocatorServer) : Prop :=
  m'.requests + UInt64.ofNat m'.uncounted + UInt64.ofNat m.pending =
    m.requests + UInt64.ofNat m.uncounted + UInt64.ofNat m'.pending + early

theorem balance_same (hrequests : m'.requests = m.requests)
    (huncounted : m'.uncounted = m.uncounted) (hpending : m'.pending = m.pending) :
    Balance 0 m m' := by
  rw [Balance, hrequests, huncounted, hpending, UInt64.add_zero]

theorem balance_schedule (hrequests : m'.requests = m.requests)
    (huncounted : m'.uncounted = m.uncounted + 1) (hpending : m'.pending = m.pending + 1) :
    Balance 0 m m' := by
  rw [Balance, hrequests, huncounted, hpending, UInt64.ofNat_add, UInt64.ofNat_add]
  grind

theorem balance_count (hrequests : m'.requests = m.requests + 1)
    (huncounted : m.uncounted = m'.uncounted + 1) (hpending : m'.pending = m.pending) :
    Balance 0 m m' := by
  rw [Balance, hrequests, huncounted, hpending, UInt64.ofNat_add]
  grind

/-- A call is completed; it should decrement `m_requests`. -/
theorem balance_complete {early : UInt64} (hrequests : m'.requests + 1 = m.requests + early)
    (huncounted : m'.uncounted = m.uncounted) (hpending : m.pending = m'.pending + 1) :
    Balance early m m' := by
  rw [Balance, huncounted, hpending, UInt64.ofNat_add]
  grind

theorem uncounted_requestRIDs (m : AllocatorServer) : m.requestRIDs.uncounted = m.uncounted := by
  show (m.requesters ++ [Requester.load]).count .count + _ = _
  rw [List.count_append, List.count_singleton]
  rfl

theorem balance_process (a : AllocatorId) (rids : RIDLists) :
    Balance 0 m (m.process a rids) := by
  have hgiven : ∀ (n : Nat) (m₁ : AllocatorServer), Balance 0 m m₁ →
      Balance 0 m (if n > 0 then m₁.requestRIDs else m₁) := by
    intro n m₁ h
    split
    · rw [Balance, uncounted_requestRIDs]
      exact h
    · exact h
  rw [process]
  generalize getRIDs _ m.pools rids = g
  exact hgiven _ _ (balance_same rfl rfl rfl)

theorem balance_getRID (a : AllocatorId) (type : RIDType) (rids : RIDLists) :
    Balance 0 m (m.getRID a type rids) := by
  rw [getRID]
  split
  · exact balance_same rfl rfl rfl
  · exact balance_same rfl rfl rfl

theorem uncounted_set {i : Nat} {r : Requester} (h : m.requesters[i]? = some r)
    (r' : Requester) : { m with requesters := m.requesters.set i r' }.uncounted +
      (if r = .count then 1 else 0) = m.uncounted + if r' = .count then 1 else 0 := by
  obtain ⟨hi, hr⟩ := List.getElem?_eq_some_iff.mp h
  have hle := List.boole_getElem_le_count (a := .count) hi
  simp only [hr, beq_iff_eq] at hle
  simp only [uncounted, List.count_set hi, hr, beq_iff_eq]
  omega

theorem uncounted_eraseIdx {i : Nat} {r : Requester} (h : m.requesters[i]? = some r) :
    m.uncounted = { m with requesters := m.requesters.eraseIdx i }.uncounted +
      if r = .count then 1 else 0 := by
  simp only [uncounted, count_eraseIdx .count m.requesters h]
  omega

theorem pending_append (m : AllocatorServer) (call : RenderCall) :
    { m with renderQueue := m.renderQueue ++ [call] }.pending = m.pending + 1 := by
  show (m.renderQueue ++ [call]).length + _ = _
  rw [List.length_append, List.length_singleton, Nat.add_right_comm]
  rfl

theorem balance_requesterNext {i : Nat} {r : Requester} (h : m.requesters[i]? = some r) :
    Balance 0 m (m.requesterNext i r) := by
  cases r with
  | load =>
    rw [requesterNext]
    split
    · exact balance_same rfl (uncounted_set h .schedule) rfl
    · exact balance_same rfl (uncounted_eraseIdx h).symm rfl
  | schedule => exact balance_schedule rfl (uncounted_set h .count) (pending_append m _)
  | count => exact balance_count rfl (uncounted_eraseIdx h) rfl

theorem pending_begin {call : RenderCall} {rest : List RenderCall} (place : RenderPlace)
    (hnone : m.rendering = none) (hqueue : m.renderQueue = call :: rest) :
    { m with renderQueue := rest, rendering := some place }.pending = m.pending := by
  simp only [pending, hnone, hqueue, List.length_cons]
  rfl

theorem balance_renderBegin (hs : m.renderBegin = some m') : Balance 0 m m' := by
  rw [renderBegin] at hs
  split at hs
  · next hnone hqueue =>
    cases hs
    exact balance_same rfl rfl (pending_begin _ hnone hqueue)
  · next hnone hqueue =>
    cases hs
    exact balance_same rfl rfl (pending_begin _ hnone hqueue)
  · cases hs

theorem pending_rendering {place : RenderPlace} (h : m.rendering = some place) :
    m.pending = m.renderQueue.length + 1 := by
  rw [pending, h]
  rfl

theorem balance_renderNext {place : RenderPlace} (h : m.rendering = some place) (rid : RID) :
    Balance (if place = .anyRequired [] then 1 else 0) m (m.renderNext rid place) := by
  have hpending := pending_rendering h
  cases place with
  | anyRequired types =>
    cases types with
    | nil => exact balance_complete rfl rfl hpending
    | cons type types =>
      rw [renderNext, if_neg (by simp)]
      split
      · exact balance_same rfl rfl hpending.symm
      · exact balance_same rfl rfl hpending.symm
  | fill types =>
    cases types with
    | nil => exact balance_same rfl rfl hpending.symm
    | cons type types =>
      rw [renderNext, if_neg (by simp)]
      split
      · exact balance_same rfl rfl rfl
      · exact balance_same rfl rfl hpending.symm
  | allocated =>
    rw [if_neg (by simp)]
    refine balance_complete ?_ rfl hpending
    show m.requests - 1 + 1 = m.requests + 0
    rw [UInt64.sub_add_cancel, UInt64.add_zero]
  | free => exact balance_same rfl rfl hpending.symm
  | deallocated =>
    rw [if_neg (by simp)]
    refine balance_complete ?_ rfl hpending
    show m.requests - 1 + 1 = m.requests + 0
    rw [UInt64.sub_add_cancel, UInt64.add_zero]

theorem balance_destructorNext (hs : m.destructorNext = some m') : Balance 0 m m' := by
  rw [destructorNext] at hs
  split at hs
  · next halive =>
    obtain ⟨_, ⟨⟩⟩ := Option.ite_none_right_eq_some.mp hs
    refine balance_schedule rfl ?_ (pending_append m _)
    rw [uncounted, uncounted, halive]
    rfl
  · next hcount =>
    cases hs
    refine balance_count rfl ?_ rfl
    rw [uncounted, uncounted, hcount]
    rfl
  · next hwait =>
    cases hs
    split
    · refine balance_same rfl ?_ rfl
      rw [uncounted, uncounted, hwait]
      rfl
    · exact balance_same rfl rfl rfl
  · cases hs

theorem balance_step (hs : step m l = some m') :
    Balance (if ReturnsEarly m l then 1 else 0) m m' := by
  cases l with
  | requestRIDs =>
    obtain ⟨_, ⟨⟩⟩ := Option.ite_none_right_eq_some.mp hs
    exact balance_same rfl (uncounted_requestRIDs m) rfl
  | allocator a =>
    obtain ⟨_, hs⟩ := Option.ite_none_right_eq_some.mp hs
    obtain ⟨_, hs⟩ := Option.ite_none_right_eq_some.mp hs
    rw [← Option.some.inj hs]
    exact balance_process a _
  | process a =>
    obtain ⟨_, hs⟩ := Option.ite_none_right_eq_some.mp hs
    obtain ⟨rids, _, rfl⟩ := Option.map_eq_some_iff.mp hs
    exact balance_process a rids
  | getRID a type =>
    obtain ⟨_, hs⟩ := Option.ite_none_right_eq_some.mp hs
    obtain ⟨rids, _, rfl⟩ := Option.map_eq_some_iff.mp hs
    exact balance_getRID a type rids
  | destroyAllocator a =>
    obtain ⟨_, hs⟩ := Option.ite_none_right_eq_some.mp hs
    obtain ⟨rids, _, rfl⟩ := Option.map_eq_some_iff.mp hs
    exact balance_same rfl rfl rfl
  | requester i =>
    obtain ⟨r, hr, rfl⟩ := Option.map_eq_some_iff.mp hs
    exact balance_requesterNext hr
  | renderBegin => exact balance_renderBegin hs
  | render rid =>
    obtain ⟨place, hplace, rfl⟩ := Option.map_eq_some_iff.mp hs
    have hbalance := balance_renderNext hplace rid
    simp only [ReturnsEarly, hplace, Option.some_inj]
    exact hbalance
  | destructor => exact balance_destructorNext hs

/-- A step keeps the account unless a call returns early, and then it never does. -/
theorem accounted_step_iff (h : Accounted m) (hs : step m l = some m') :
    Accounted m' ↔ NoEarlyReturn m l := by
  have hbalance := balance_step hs
  rw [Accounted] at h
  rw [Balance, h] at hbalance
  rw [Accounted, NoEarlyReturn]
  split at hbalance
  · next hearly =>
    refine iff_of_false ?_ (not_not.mpr hearly)
    intro haccounted
    rw [haccounted] at hbalance
    grind
  · next hearly =>
    refine iff_of_true ?_ hearly
    grind

theorem accounted_reach (h : allocatorMachine.Reach NoEarlyReturn m) : Accounted m := by
  refine h.invariant (fun s hi => ?_) fun _ _ _ _ ih hg hs => (accounted_step_iff ih hs).mpr hg
  rw [show s = _ from hi]
  rfl

/-! ### The destructor -/

/-- The call of the destructor is not yet completed. -/
def Deallocating (m : AllocatorServer) : Prop :=
  .deallocateRIDsInternal ∈ m.renderQueue ∨ m.rendering = some .free ∨
    m.rendering = some .deallocated

/-- The destructor has scheduled its call, behind all others. -/
structure LastCall (m : AllocatorServer) : Prop where
  requesters : m.requesters = []
  last : m.renderQueue.getLast? = some .deallocateRIDsInternal ∨ m.renderQueue = [] ∧
    (m.rendering = none ∨ m.rendering = some .free ∨ m.rendering = some .deallocated)

theorem LastCall.deallocating (h : LastCall m) (hpending : m.pending ≠ 0) : Deallocating m := by
  rcases h.last with hlast | ⟨hqueue, hnone | hfree | hdone⟩
  · exact Or.inl (List.mem_of_getLast? hlast)
  · rw [pending, hqueue, hnone] at hpending
    exact absurd rfl hpending
  · exact Or.inr (Or.inl hfree)
  · exact Or.inr (Or.inr hdone)

theorem LastCall.renderBegin (h : LastCall m) (hs : m.renderBegin = some m') : LastCall m' := by
  rw [AllocatorServer.renderBegin] at hs
  split at hs
  · next rest hnone hqueue =>
    cases hs
    refine ⟨h.requesters, Or.inl ?_⟩
    rcases h.last with hlast | ⟨hnil, -⟩
    · rw [hqueue, List.getLast?_cons] at hlast
      cases hrest : rest.getLast? with
      | none =>
        rw [hrest] at hlast
        cases hlast
      | some call =>
        rw [hrest, Option.getD_some, Option.some_inj] at hlast
        rw [hlast]
    · rw [hqueue] at hnil
      cases hnil
  · next rest hnone hqueue =>
    cases hs
    refine ⟨h.requesters, ?_⟩
    cases hrest : rest.getLast? with
    | none => exact Or.inr ⟨List.getLast?_eq_none_iff.mp hrest, Or.inr (Or.inl rfl)⟩
    | some call =>
      refine Or.inl ?_
      rcases h.last with hlast | ⟨hnil, -⟩
      · rw [hqueue, List.getLast?_cons, hrest, Option.getD_some] at hlast
        exact hlast
      · rw [hqueue] at hnil
        cases hnil
  · cases hs

theorem renderNext_frame (m : AllocatorServer) (rid : RID) (place : RenderPlace) :
    (m.renderNext rid place).renderQueue = m.renderQueue ∧
      (m.renderNext rid place).requesters = m.requesters ∧
      (m.renderNext rid place).destructor = m.destructor := by
  cases place with
  | anyRequired types =>
    cases types with
    | nil => exact ⟨rfl, rfl, rfl⟩
    | cons type types =>
      rw [renderNext]
      split <;> exact ⟨rfl, rfl, rfl⟩
  | fill types =>
    cases types with
    | nil => exact ⟨rfl, rfl, rfl⟩
    | cons type types =>
      rw [renderNext]
      split <;> exact ⟨rfl, rfl, rfl⟩
  | allocated => exact ⟨rfl, rfl, rfl⟩
  | free => exact ⟨rfl, rfl, rfl⟩
  | deallocated => exact ⟨rfl, rfl, rfl⟩

theorem LastCall.renderNext {place : RenderPlace} (h : LastCall m)
    (hplace : m.rendering = some place) (rid : RID) : LastCall (m.renderNext rid place) := by
  obtain ⟨hqueue, hrequesters, -⟩ := renderNext_frame m rid place
  refine ⟨by rw [hrequesters, h.requesters], ?_⟩
  rw [hqueue]
  rcases h.last with hlast | ⟨hnil, hrendering⟩
  · exact Or.inl hlast
  · refine Or.inr ⟨hnil, ?_⟩
    rw [hplace] at hrendering
    rcases hrendering with hnone | hfree | hdone
    · cases hnone
    · cases hfree
      exact Or.inr (Or.inr rfl)
    · cases hdone
      exact Or.inl rfl

/-- After the destructor has begun, its call is the last one. -/
def Destroying (m : AllocatorServer) : Prop := m.destructor ≠ .alive → LastCall m

theorem destroying_of_alive (h : m.destructor = .alive) : Destroying m := fun hne =>
  absurd h hne

theorem process_destructor (m : AllocatorServer) (a : AllocatorId) (rids : RIDLists) :
    (m.process a rids).destructor = m.destructor := by
  rw [process]
  generalize getRIDs _ m.pools rids = g
  split <;> rfl

theorem getRID_destructor (m : AllocatorServer) (a : AllocatorId) (type : RIDType)
    (rids : RIDLists) : (m.getRID a type rids).destructor = m.destructor := by
  rw [getRID]
  split <;> rfl

theorem destroying_destructorNext (h : Destroying m) (hs : m.destructorNext = some m') :
    Destroying m' := by
  rw [destructorNext] at hs
  split at hs
  · obtain ⟨hrequesters, ⟨⟩⟩ := Option.ite_none_right_eq_some.mp hs
    exact fun _ => ⟨hrequesters, Or.inl List.getLast?_concat⟩
  · next hcount =>
    cases hs
    have hlast := h (by rw [hcount]; decide)
    exact fun _ => ⟨hlast.requesters, hlast.last⟩
  · next hwait =>
    cases hs
    have hlast := h (by rw [hwait]; decide)
    split
    · exact fun _ => ⟨hlast.requesters, hlast.last⟩
    · exact h
  · cases hs

theorem destroying_step (h : Destroying m) (hs : step m l = some m') : Destroying m' := by
  cases l with
  | requestRIDs =>
    obtain ⟨halive, ⟨⟩⟩ := Option.ite_none_right_eq_some.mp hs
    exact destroying_of_alive halive
  | allocator a =>
    obtain ⟨⟨halive, _⟩, hs⟩ := Option.ite_none_right_eq_some.mp hs
    obtain ⟨_, hs⟩ := Option.ite_none_right_eq_some.mp hs
    rw [← Option.some.inj hs]
    exact destroying_of_alive ((process_destructor m a _).trans halive)
  | process a =>
    obtain ⟨⟨halive, _⟩, hs⟩ := Option.ite_none_right_eq_some.mp hs
    obtain ⟨rids, _, rfl⟩ := Option.map_eq_some_iff.mp hs
    exact destroying_of_alive ((process_destructor m a rids).trans halive)
  | getRID a type =>
    obtain ⟨halive, hs⟩ := Option.ite_none_right_eq_some.mp hs
    obtain ⟨rids, _, rfl⟩ := Option.map_eq_some_iff.mp hs
    exact destroying_of_alive ((getRID_destructor m a type rids).trans halive)
  | destroyAllocator a =>
    obtain ⟨⟨halive, _⟩, hs⟩ := Option.ite_none_right_eq_some.mp hs
    obtain ⟨rids, _, rfl⟩ := Option.map_eq_some_iff.mp hs
    exact destroying_of_alive halive
  | requester i =>
    obtain ⟨r, hr, rfl⟩ := Option.map_eq_some_iff.mp hs
    refine destroying_of_alive (by_contra fun hne => ?_)
    have hdestructor : (m.requesterNext i r).destructor = m.destructor := by
      cases r with
      | load =>
        rw [requesterNext]
        split <;> rfl
      | schedule => rfl
      | count => rfl
    rw [hdestructor] at hne
    rw [(h hne).requesters] at hr
    cases hr
  | renderBegin =>
    intro hne
    have hdestructor : m'.destructor = m.destructor := by
      have hs' := hs
      rw [step, AllocatorServer.renderBegin] at hs'
      split at hs' <;> cases hs' <;> rfl
    rw [hdestructor] at hne
    exact (h hne).renderBegin hs
  | render rid =>
    obtain ⟨place, hplace, rfl⟩ := Option.map_eq_some_iff.mp hs
    intro hne
    rw [(renderNext_frame m rid place).2.2] at hne
    exact (h hne).renderNext hplace rid
  | destructor => exact destroying_destructorNext h hs

theorem destroying_reachable (h : allocatorMachine.Reachable m) : Destroying m := by
  refine h.invariant (I := Destroying) (fun s hi => ?_)
    fun _ _ _ _ ih _ hs => destroying_step ih hs
  rw [show s = _ from hi]
  exact destroying_of_alive rfl

/-! ### `m_requests` counts the pending requests -/

/-- What the counter of the requests is good for. -/
structure RequestsExact (m : AllocatorServer) : Prop where
  accounted : Accounted m
  idle : m.pending = 0 → m.uncounted = 0 → ∀ i, m.requesters[i]? = some .load →
    m.step (.requester i) = some { m with requesters := m.requesters.set i .schedule }
  own : m.destructor = .wait → m.requests ≠ 0 → Deallocating m

theorem requests_of_uncounted (h : Accounted m) (huncounted : m.uncounted = 0) :
    m.requests = UInt64.ofNat m.pending := by
  rw [Accounted, huncounted] at h
  rw [← h]
  exact (UInt64.add_zero _).symm

/-- In a run without early returns `m_requests` is exact, and the first early return makes it
wrong. -/
theorem requests_exact (m : AllocatorServer) (h : allocatorMachine.Reach NoEarlyReturn m) :
    RequestsExact m ∧ ∀ l m', m.step l = some m' → (Accounted m' ↔ NoEarlyReturn m l) := by
  have haccounted := accounted_reach h
  refine ⟨⟨haccounted, ?_, ?_⟩, fun l m' hs => accounted_step_iff haccounted hs⟩
  · intro hpending huncounted i hi
    have hzero : m.requests = 0 := by
      rw [requests_of_uncounted haccounted huncounted, hpending]
      rfl
    rw [step, hi, Option.map_some, requesterNext, if_pos hzero]
  · intro hwait hne
    have hlast := destroying_reachable h.reachable (by rw [hwait]; decide)
    have huncounted : m.uncounted = 0 := by
      rw [uncounted, hlast.requesters, hwait]
      rfl
    refine hlast.deallocating fun hpending => hne ?_
    rw [requests_of_uncounted haccounted huncounted, hpending]
    rfl

/-- A request of an allocator, and the first ids that are created for it. -/
def requestRun : List Label :=
  [.allocator 0, .requestRIDs, .requester 0, .requestRIDs, .requester 0, .requester 1,
    .renderBegin, .render 0, .requester 0, .render 1, .render 2]

theorem requests_exact_requestRun : ∃ m, allocatorMachine.exec {} requestRun = some m ∧
    RequestsExact m ∧ ∀ l m', m.step l = some m' → (Accounted m' ↔ NoEarlyReturn m l) := by
  have hexec : (allocatorMachine.exec {} requestRun).isSome = true ∧
      allocatorMachine.Follows NoEarlyReturn {} requestRun := by decide +kernel
  obtain ⟨m, hm⟩ := Option.isSome_iff_exists.mp hexec.1
  exact ⟨m, hm, requests_exact m (Machine.Reach.exec (.init rfl) hexec.2 hm)⟩

/-! ### An early return -/

/-- Nobody is in a call. -/
structure Quiet (m : AllocatorServer) : Prop where
  requests : m.requests = 0
  requesters : m.requesters = []
  renderQueue : m.renderQueue = []
  rendering : m.rendering = none
  destructor : m.destructor = .alive

theorem reachable_request (h : allocatorMachine.Reachable m) (hquiet : Quiet m) :
    allocatorMachine.Reachable
      { m with requests := 1, rendering := some (.anyRequired RIDType.all) } := by
  obtain ⟨requests, pools, allocators, requesters, renderQueue, rendering, destructor, created,
    handedOut⟩ := m
  obtain ⟨rfl, rfl, rfl, rfl, rfl⟩ := hquiet
  have hload := h.step (l := .requestRIDs) trivial rfl
  have hschedule := hload.step (l := .requester 0) trivial rfl
  have hcount := hschedule.step (l := .requester 0) trivial rfl
  have hcounted := hcount.step (l := .requester 0) trivial rfl
  exact hcounted.step (l := .renderBegin) trivial rfl

/-- Every pool of the types holds as many ids as are created in advance. -/
def Filled (pools : RIDLists) (types : List RIDType) : Prop :=
  ∀ type ∈ types, maxPreallocated type ≤ (pools type).length

theorem Filled.grow {pools pools' : RIDLists} {types : List RIDType} (h : Filled pools types)
    (hle : ∀ type, (pools type).length ≤ (pools' type).length) : Filled pools' types :=
  fun type htype => Nat.le_trans (h type htype) (hle type)

/-- What `fill` leads to: the pools of the types are filled, and none has lost an id. -/
def FilledBehind (m : AllocatorServer) (types rest : List RIDType) : Prop :=
  ∃ pools created, allocatorMachine.Reachable
      { m with pools := pools, created := created, rendering := some (.fill rest) } ∧
    Filled pools types ∧ ∀ type, (m.pools type).length ≤ (pools type).length

theorem reachable_render (h : allocatorMachine.Reachable m) {place : RenderPlace}
    (hplace : m.rendering = some place) :
    allocatorMachine.Reachable (m.renderNext 0 place) := by
  have hs : m.step (.render 0) = some (m.renderNext 0 place) := by
    rw [step, hplace, Option.map_some]
  exact h.step (l := .render 0) trivial hs

theorem fill_type (type : RIDType) (types : List RIDType) (n : Nat) :
    ∀ m, allocatorMachine.Reachable m → m.rendering = some (.fill (type :: types)) →
      maxPreallocated type ≤ (m.pools type).length + n → FilledBehind m [type] types := by
  induction n with
  | zero =>
    intro m h hfill hfull
    have hnext := reachable_render h hfill
    rw [renderNext, if_neg (by omega)] at hnext
    exact ⟨m.pools, m.created, hnext, List.forall_mem_singleton.mpr hfull,
      fun _ => Nat.le_refl _⟩
  | succ n ih =>
    intro m h hfill hle
    have hnext := reachable_render h hfill
    by_cases hfull : maxPreallocated type ≤ (m.pools type).length
    · rw [renderNext, if_neg (by omega)] at hnext
      exact ⟨m.pools, m.created, hnext, List.forall_mem_singleton.mpr hfull,
        fun _ => Nat.le_refl _⟩
    · rw [renderNext, if_pos (by omega)] at hnext
      have hlen : (Function.update m.pools type (m.pools type ++ [0]) type).length =
          (m.pools type).length + 1 := by
        rw [Function.update_self, List.length_append, List.length_singleton]
      have hle' : maxPreallocated type ≤
          (Function.update m.pools type (m.pools type ++ [0]) type).length + n := by omega
      obtain ⟨pools, created, hreach, hfilled, hgrow⟩ := ih _ hnext hfill hle'
      refine ⟨pools, created, hreach, hfilled, fun type' => Nat.le_trans ?_ (hgrow type')⟩
      by_cases htype : type' = type
      · rw [htype]
        show _ ≤ (Function.update m.pools type (m.pools type ++ [0]) type).length
        omega
      · have hsame : Function.update m.pools type (m.pools type ++ [0]) type' = m.pools type' :=
          Function.update_of_ne htype ..
        exact Nat.le_of_eq (congrArg List.length hsame.symm)

/-- The loop of `AllocateRIDsInternal` ends with all pools filled. -/
theorem fill_types (types : List RIDType) :
    ∀ m, allocatorMachine.Reachable m → m.rendering = some (.fill types) →
      FilledBehind m types [] := by
  induction types with
  | nil =>
    intro m h hfill
    refine ⟨m.pools, m.created, ?_, fun _ htype => (by cases htype), fun _ => Nat.le_refl _⟩
    rw [← hfill]
    exact h
  | cons type types ih =>
    intro m h hfill
    obtain ⟨pools, created, hreach, hfilled, hgrow⟩ := fill_type type types _ m h hfill
      (Nat.le_add_left ..)
    obtain ⟨pools', created', hreach', hfilled', hgrow'⟩ := ih _ hreach rfl
    refine ⟨pools', created', hreach', ?_, fun type' => Nat.le_trans (hgrow type') (hgrow' type')⟩
    intro type' htype'
    rcases List.mem_cons.mp htype' with htype' | htype'
    · rw [htype']
      exact (hfilled.grow hgrow') type (List.mem_singleton_self type)
    · exact hfilled' type' htype'

/-- With all pools filled the loop of `AnyRequired` goes to its end. -/
theorem reachable_scan (types : List RIDType) :
    ∀ m, allocatorMachine.Reachable m → m.rendering = some (.anyRequired types) →
      Filled m.pools types →
      allocatorMachine.Reachable { m with rendering := some (.anyRequired []) } := by
  induction types with
  | nil =>
    intro m h hscan _
    rw [← hscan]
    exact h
  | cons type types ih =>
    intro m h hscan hfilled
    have hfull := hfilled type (List.mem_cons_self ..)
    have hrest : Filled m.pools types := fun type' htype' =>
      hfilled type' (List.mem_cons_of_mem _ htype')
    have hnext := reachable_render h hscan
    rw [renderNext, if_neg (by omega)] at hnext
    exact ih { m with rendering := some (.anyRequired types) } hnext rfl hrest

/-- The second of two requests finds all pools filled: it is never counted down again, and no
later request goes through. -/
theorem secondRequest_stranded : ∃ m, allocatorMachine.Reachable m ∧ m.requesters = [] ∧
    m.destructor = .alive ∧ m.pending = 0 ∧ m.requests = 1 ∧ ¬ Accounted m := by
  have hfirst := reachable_request (.init rfl) ⟨rfl, rfl, rfl, rfl, rfl⟩
  have hfill : allocatorMachine.Reachable
      { requests := 1, rendering := some (.fill RIDType.all) } := reachable_render hfirst rfl
  obtain ⟨pools, created, hfilled, hfull, -⟩ := fill_types RIDType.all _ hfill rfl
  have hallocated : allocatorMachine.Reachable
      { requests := 1, pools := pools, created := created, rendering := some .allocated } :=
    reachable_render hfilled rfl
  have hquiet := reachable_render hallocated rfl
  have hzero : (1 : UInt64) - 1 = 0 := by decide
  have hsecond := reachable_request hquiet ⟨hzero, rfl, rfl, rfl, rfl⟩
  have hscan := reachable_scan RIDType.all _ hsecond rfl hfull
  have hearly : allocatorMachine.Reachable
      { requests := 1, pools := pools, created := created, rendering := none } :=
    reachable_render hscan rfl
  refine ⟨_, hearly, rfl, rfl, rfl, rfl, fun haccounted => ?_⟩
  have hone : (1 : UInt64) = 0 := haccounted
  cases hone

end AllocatorServer
end CosmicArchitect.Render
