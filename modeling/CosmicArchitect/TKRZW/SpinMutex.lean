import CosmicArchitect.Library.LockedData

/-!
# The spin lock (lib/TKRZW/tkrzw_thread_util.h, `SpinMutex`)

A step is one operation of one thread on the atomic flag `lock_`.
-/

namespace CosmicArchitect.TKRZW
open Library

variable {ι α : Type} [DecidableEq ι]

namespace SpinMutex

/-- A thread that `retries` is in `lock`, else in `try_lock`. -/
inductive Place
  | outside
  | exclusive
  | testAndSet (retries : Bool)
deriving DecidableEq, Repr

def Place.ownership : Place → Ownership
  | .exclusive => .exclusive
  | _ => .none

inductive Label (ι : Type)
  | lock (i : ι)
  | tryLock (i : ι)
  | unlock (i : ι)
  | next (i : ι)

def Label.thread : Label ι → ι
  | .lock i | .tryLock i | .unlock i | .next i => i

end SpinMutex

structure SpinMutex (ι : Type) where
  lock : Bool := false
  places : ι → SpinMutex.Place := fun _ => .outside

namespace SpinMutex

def goto (m : SpinMutex ι) (i : ι) (place : Place) : SpinMutex ι :=
  { m with places := Function.update m.places i place }

def step (m : SpinMutex ι) : Label ι → Option (SpinMutex ι)
  | .lock i => if m.places i = .outside then some (m.goto i (.testAndSet true)) else none
  | .tryLock i => if m.places i = .outside then some (m.goto i (.testAndSet false)) else none
  | .unlock i =>
    if m.places i = .exclusive then some ({ m with lock := false }.goto i .outside) else none
  | .next i =>
    match m.places i with
    | .outside | .exclusive => none
    | .testAndSet retries =>
      some ({ m with lock := true }.goto i
        (if m.lock = false then .exclusive else if retries then .testAndSet true else .outside))

def owns (m : SpinMutex ι) (i : ι) : Ownership := (m.places i).ownership

/-- All runs of threads that call a method only with the ownership it is documented for. -/
def asLock (ι : Type) [DecidableEq ι] : Lock (SpinMutex ι) (Label ι) ι where
  machine := { init := fun m => m = {}, step := step }
  thread := Label.thread
  owns := owns

/-- The flag is set while there is an owner, and there is one owner at most. -/
structure Exact (m : SpinMutex ι) : Prop where
  excludes : (asLock ι).Excludes m
  set : m.lock = true ↔ ∃ i, m.owns i = .exclusive

section
variable {m m' : SpinMutex ι} {i j : ι} {place : Place} {flag : Bool}

theorem owns_goto_of_ne (hj : j ≠ i) : ({ m with lock := flag }.goto i place).owns j = m.owns j :=
  congrArg Place.ownership (Function.update_of_ne hj ..)

theorem owns_goto_self : ({ m with lock := flag }.goto i place).owns i = place.ownership :=
  congrArg Place.ownership (Function.update_self ..)

/-- A step moves the thread that takes it, and no other. -/
theorem step_goto {l : Label ι} (h : m.step l = some m') :
    ∃ flag place, m' = { m with lock := flag }.goto l.thread place := by
  cases l with
  | lock i | tryLock i | unlock i =>
    obtain ⟨-, heq⟩ := Option.ite_none_right_eq_some.mp h
    exact ⟨_, _, (Option.some.inj heq).symm⟩
  | next i =>
    unfold step at h
    dsimp only at h
    split at h
    case h_1 | h_2 => cases h
    case h_3 => exact ⟨_, _, (Option.some.inj h).symm⟩

namespace Exact
variable (h : Exact m)
include h

/-- A thread that is not the owner goes on without becoming it. -/
theorem walk (hi : m.owns i = .none) (hplace : place.ownership = .none) :
    Exact (m.goto i place) := by
  have hsame : ∀ j, ({ m with lock := m.lock }.goto i place).owns j = m.owns j := by
    intro j
    by_cases hj : j = i
    · rw [hj]
      exact (owns_goto_self.trans hplace).trans hi.symm
    · exact owns_goto_of_ne hj
  refine ⟨fun j k hj hk => ?_, h.set.trans (exists_congr fun j => by rw [hsame])⟩
  exact (hsame k).trans (h.excludes j k ((hsame j).symm.trans hj) hk)

theorem release (hi : m.owns i = .exclusive) : Exact ({ m with lock := false }.goto i .outside) := by
  have hno : ∀ j, ({ m with lock := false }.goto i .outside).owns j ≠ .exclusive := by
    intro j hj
    by_cases hji : j = i
    · rw [hji] at hj
      cases owns_goto_self.symm.trans hj
    · cases (h.excludes i j hi hji).symm.trans ((owns_goto_of_ne hji).symm.trans hj)
  exact ⟨fun j _ hj => absurd hj (hno j), iff_of_false Bool.false_ne_true fun ⟨j, hj⟩ => hno j hj⟩

theorem take (hlock : m.lock = false) : Exact ({ m with lock := true }.goto i .exclusive) := by
  have hnone : ∀ j, m.owns j = .none := fun j => by
    cases hown : m.owns j with
    | none => rfl
    | exclusive => cases hlock.symm.trans (h.set.mpr ⟨j, hown⟩)
    | shared =>
      unfold owns Place.ownership at hown
      split at hown <;> cases hown
  refine ⟨fun j k hj hk => ?_, iff_of_true rfl ⟨i, owns_goto_self⟩⟩
  have hji : j = i := by
    by_contra hji
    cases (hnone j).symm.trans ((owns_goto_of_ne hji).symm.trans hj)
  exact (owns_goto_of_ne (hji ▸ hk)).trans (hnone k)

theorem step {l : Label ι} (hstep : m.step l = some m') : Exact m' := by
  cases l with
  | lock i | tryLock i =>
    obtain ⟨hp, heq⟩ := Option.ite_none_right_eq_some.mp hstep
    cases heq
    exact h.walk (congrArg Place.ownership hp) rfl
  | unlock i =>
    obtain ⟨hp, heq⟩ := Option.ite_none_right_eq_some.mp hstep
    cases heq
    exact h.release (congrArg Place.ownership hp)
  | next i =>
    unfold SpinMutex.step at hstep
    dsimp only at hstep
    split at hstep
    case h_1 | h_2 => cases hstep
    case h_3 retries hp =>
      cases hstep
      cases hlock : m.lock with
      | false =>
        rw [if_pos rfl]
        exact h.take hlock
      | true =>
        have hsame : ({ m with lock := true } : SpinMutex ι) = m := by rw [← hlock]
        rw [hsame, if_neg (by decide)]
        refine h.walk (congrArg Place.ownership hp) ?_
        split <;> rfl

end Exact
end

theorem exact_of_reach {m : SpinMutex ι} (h : (asLock ι).machine.Reachable m) : Exact m := by
  refine h.invariant (I := Exact) ?_ fun m l m' _ hm _ hstep => hm.step hstep
  intro m hinit
  cases hinit
  exact ⟨(fun _ _ hi => by cases hi), iff_of_false Bool.false_ne_true (fun ⟨_, hi⟩ => by cases hi)⟩

theorem sound : (asLock ι).Sound Machine.anyStep where
  free m hinit i := by
    cases hinit
    rfl
  excludes m h := (exact_of_reach h).excludes
  others m l m' hstep j hj := by
    obtain ⟨flag, place, rfl⟩ := step_goto hstep
    exact owns_goto_of_ne hj

/-- The data behind a spin lock is what its owners made of it one after another, and nobody else
writes while a thread owns it. -/
theorem spin_mutex_isolates (data : α) {g : Lock.Guarded (SpinMutex ι) ι α}
    (h : ((asLock ι).guarded data).Reachable g) : (asLock ι).Isolated data g ∧ Exact g.lock := by
  have hlift : ((asLock ι).guarded data).Reach (Lock.lift Machine.anyStep) g :=
    h.mono fun g l _ => by cases l <;> trivial
  exact ⟨Lock.isolated_of_reach sound hlift, exact_of_reach (Lock.reach_lock hlift)⟩

def tryRun : List (Lock.Label (Label (Fin 2)) (Fin 2) Nat) :=
  [.lock (.lock 0), .lock (.next 0), .write 0 (· + 5), .lock (.tryLock 1), .lock (.next 1),
    .write 0 (· * 2), .lock (.unlock 0), .lock (.tryLock 1), .lock (.next 1), .write 1 (· + 1)]

theorem spin_mutex_isolates_tryRun : ∃ g : Lock.Guarded (SpinMutex (Fin 2)) (Fin 2) Nat,
    ((asLock (Fin 2)).guarded 1).exec { lock := {}, data := 1 } tryRun = some g ∧
      (asLock (Fin 2)).Isolated 1 g ∧ Exact g.lock := by
  obtain ⟨g, hg⟩ := Option.isSome_iff_exists.mp
    (show (((asLock (Fin 2)).guarded 1).exec { lock := {}, data := 1 } tryRun).isSome = true from by
      decide +kernel)
  have hinit : ((asLock (Fin 2)).guarded 1).init { lock := {}, data := 1 } := ⟨rfl, rfl, rfl, rfl⟩
  exact ⟨g, hg, spin_mutex_isolates 1 (Machine.reachable_of_exec hinit hg)⟩

end SpinMutex
end CosmicArchitect.TKRZW
