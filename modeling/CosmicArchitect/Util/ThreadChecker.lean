import CosmicArchitect.Library.Machine
import CosmicArchitect.Library.UnorderedErase

/-!
# The debug thread checker (Util/Debug.cpp)

Read and write scopes of any number of threads on one object. Each thread ends its scopes in
the reverse order; a failed assertion ends the program.
-/

namespace CosmicArchitect.Util.DebugThreadChecker

open Library

universe u
variable {τ : Type u} [DecidableEq τ]

/-- What is known of the object; `write` is `none` for `std::thread::id{}`. -/
structure ThreadObject (τ : Type u) where
  write : Option τ := none
  writeRecursion : Nat := 0
  read : List τ := []
deriving DecidableEq, Repr

def onlyPresent (storage : List τ) (target : τ) : Bool := storage.all (· = target)

/-- How the program ends: by a failed assertion, or behind the growth of the list of reads,
whose insertion goes on with a position in the storage the list has left. -/
inductive Failure
  | assertion
  | growth
deriving DecidableEq, Repr

/-- The reads stand in the object itself as long as there are at most 32. -/
def inlineReads : Nat := 32

/-- The constructor, on the object's entry in the map. The flag is the checker's `m_write`. -/
def construct (entry : Option (ThreadObject τ)) (threadId : τ) (write : Bool) :
    Except Failure (ThreadObject τ × Bool) :=
  let objectData := entry.getD {}
  if write then
    if onlyPresent objectData.read threadId then
      .ok ({ objectData with
        write := if objectData.writeRecursion = 0 then some threadId else objectData.write
        writeRecursion := objectData.writeRecursion + 1 }, true)
    else .error .assertion
  else if objectData.write = some threadId then
    .ok ({ objectData with writeRecursion := objectData.writeRecursion + 1 }, true)
  else if objectData.write = none then
    if objectData.read.length < inlineReads then
      .ok ({ objectData with read := objectData.read ++ [threadId] }, false)
    else .error .growth
  else .error .assertion

/-- The destructor; an idle object loses its entry. -/
def destroy (entry : Option (ThreadObject τ)) (threadId : τ) (mWrite : Bool) :
    Except Failure (Option (ThreadObject τ)) :=
  match entry with
  | none => .error .assertion
  | some objectData =>
    let objectData :=
      if mWrite then
        { objectData with
          write := if objectData.writeRecursion - 1 = 0 then none else objectData.write
          writeRecursion := objectData.writeRecursion - 1 }
      else { objectData with read := unorderedErase objectData.read threadId }
    .ok (if objectData.read = [] ∧ objectData.write = none then none else some objectData)

/-! ### Threads with scopes -/

/-- A scope that was asked for, and whether the checker counts it as a write. -/
structure Scope where
  write : Bool
  mWrite : Bool
deriving DecidableEq, Repr

/-- The scopes of each thread, the innermost first. -/
structure State (τ : Type u) where
  entry : Option (ThreadObject τ) := none
  scopes : τ → List Scope := fun _ => []
  failure : Option Failure := none

inductive Event (τ : Type u)
  | construct (threadId : τ) (write : Bool)
  | destroy (threadId : τ)
deriving DecidableEq, Repr

/-- A thread begins a scope or ends its innermost one, unless the program has ended. -/
def State.step (s : State τ) (e : Event τ) : Option (State τ) :=
  if s.failure ≠ none then none
  else
    match e with
    | .construct t write =>
      match DebugThreadChecker.construct s.entry t write with
      | .error failure => some { s with failure := some failure }
      | .ok (objectData, mWrite) =>
        some { s with
          entry := some objectData
          scopes := Function.update s.scopes t (⟨write, mWrite⟩ :: s.scopes t) }
    | .destroy t =>
      match s.scopes t with
      | [] => none
      | scope :: outer =>
        match DebugThreadChecker.destroy s.entry t scope.mWrite with
        | .error failure => some { s with failure := some failure }
        | .ok entry => some { s with entry := entry, scopes := Function.update s.scopes t outer }

def checkerMachine (τ : Type u) [DecidableEq τ] : Machine (State τ) (Event τ) where
  init s := s = {}
  step := State.step

/-- A write scope of the thread is open. -/
def Writes (scopes : τ → List Scope) (t : τ) : Prop := ∃ scope ∈ scopes t, scope.write = true

/-- A scope of the thread is open that stands in the list of reads. -/
def Registered (scopes : τ → List Scope) (t : τ) : Prop := ∃ scope ∈ scopes t, scope.mWrite = false

/-- Another thread holds a scope that must not overlap with the new one. -/
def Conflict (s : State τ) : Event τ → Prop
  | .construct t write => ∃ t', t' ≠ t ∧ ∃ scope ∈ s.scopes t', scope.write = true ∨ write = true
  | .destroy _ => False

/-- The step ends the program by an assertion just when there is a conflict, and the object's
entry is gone when no scope is left. -/
def Exact (s : State τ) (e : Event τ) : Prop :=
  ∀ s', s.step e = some s' →
    (Conflict s e → s'.failure = some .assertion) ∧ (¬Conflict s e → s'.failure = none) ∧
    (s'.failure = none → (∀ t, s'.scopes t = []) → s'.entry = none)

/-- Where a write begins beside a write of another thread, some other thread stands in the list
of reads; where a read begins and no thread writes, the list has not left the object. -/
def Covered (s : State τ) : Event τ → Prop
  | .construct t true => (∃ t', t' ≠ t ∧ Writes s.scopes t') → ∃ t', t' ≠ t ∧ Registered s.scopes t'
  | .construct _ false =>
    (∀ t, ¬Writes s.scopes t) → (s.entry.getD {}).read.length < inlineReads
  | .destroy _ => True

/-! ### The entry and the scopes -/

/-- A scope counted as a write is one or lies in one. -/
def Nested : List Scope → Prop
  | [] => True
  | scope :: outer =>
    (scope.write = true → scope.mWrite = true) ∧
    (scope.mWrite = true → scope.write = true ∨ ∃ o ∈ outer, o.write = true) ∧ Nested outer

def reads (l : List Scope) : Nat := l.countP fun scope => !scope.mWrite

def writes (l : List Scope) : Nat := l.countP fun scope => scope.mWrite

/-- The object's data count the open scopes: the list of reads each thread's reads, the recursion
the writes of the one thread that has any. -/
structure Counts (d : ThreadObject τ) (scopes : τ → List Scope) : Prop where
  read : ∀ t, d.read.count t = reads (scopes t)
  write : ∀ t, writes (scopes t) = if d.write = some t then d.writeRecursion else 0
  idle : d.write = none ↔ d.writeRecursion = 0
  nested : ∀ t, Nested (scopes t)

structure Accounted (s : State τ) : Prop where
  counts : Counts (s.entry.getD {}) s.scopes
  present : ∀ d, s.entry = some d → d.read ≠ [] ∨ d.write ≠ none

theorem reads_cons (scope : Scope) (l : List Scope) :
    reads (scope :: l) = reads l + if scope.mWrite = true then 0 else 1 := by
  rw [reads, reads, List.countP_cons]
  cases scope.mWrite <;> rfl

theorem writes_cons (scope : Scope) (l : List Scope) :
    writes (scope :: l) = writes l + if scope.mWrite = true then 1 else 0 :=
  List.countP_cons

theorem Nested.writes_pos {l : List Scope} (h : Nested l) :
    (∃ scope ∈ l, scope.write = true) ↔ 0 < writes l := by
  rw [writes, List.countP_pos_iff]
  induction l with
  | nil => simp
  | cons scope outer ih =>
    obtain ⟨hhead, hin, houter⟩ := h
    constructor
    · rintro ⟨o, ho, hwrite⟩
      rcases List.mem_cons.mp ho with rfl | ho
      · exact ⟨o, List.mem_cons_self, hhead hwrite⟩
      · obtain ⟨o', ho', hcount⟩ := (ih houter).mp ⟨o, ho, hwrite⟩
        exact ⟨o', List.mem_cons_of_mem _ ho', hcount⟩
    · rintro ⟨o, ho, hcount⟩
      have hsome : scope.write = true ∨ ∃ o ∈ outer, o.write = true := by
        rcases List.mem_cons.mp ho with rfl | ho
        · exact hin hcount
        · exact Or.inr ((ih houter).mpr ⟨o, ho, hcount⟩)
      rcases hsome with hscope | ⟨o', ho', hwrite⟩
      · exact ⟨scope, List.mem_cons_self, hscope⟩
      · exact ⟨o', List.mem_cons_of_mem _ ho', hwrite⟩

theorem Nested.update {scopes : τ → List Scope} (h : ∀ t, Nested (scopes t)) (t : τ)
    {l : List Scope} (hl : Nested l) : ∀ t', Nested (Function.update scopes t l t') := by
  intro t'
  by_cases ht : t' = t
  · rw [ht, Function.update_self]
    exact hl
  · rw [Function.update_of_ne ht]
    exact h t'

variable {d : ThreadObject τ} {scopes : τ → List Scope}

/-- A thread writes just when the entry names it. -/
theorem Counts.writes_iff (h : Counts d scopes) (t : τ) : Writes scopes t ↔ d.write = some t := by
  rw [Writes, (h.nested t).writes_pos, h.write t]
  by_cases ht : d.write = some t
  · rw [if_pos ht]
    refine ⟨fun _ => ht, fun _ => ?_⟩
    have hne : d.writeRecursion ≠ 0 := by
      intro hzero
      rw [h.idle.mpr hzero] at ht
      exact absurd ht (by simp)
    omega
  · rw [if_neg ht]
    exact ⟨fun hlt => absurd hlt (Nat.lt_irrefl 0), fun heq => absurd heq ht⟩

/-- A thread stands in the list of reads just when it has a scope counted there. -/
theorem Counts.registered_iff (h : Counts d scopes) (t : τ) :
    Registered scopes t ↔ t ∈ d.read := by
  rw [← List.count_pos_iff, h.read t, reads, List.countP_pos_iff]
  simp [Registered]

theorem Counts.scopes_iff (h : Counts d scopes) (t : τ) :
    scopes t ≠ [] ↔ Writes scopes t ∨ Registered scopes t := by
  constructor
  · intro hne
    obtain ⟨scope, hscope⟩ := List.exists_mem_of_ne_nil _ hne
    cases hm : scope.mWrite with
    | false => exact Or.inr ⟨scope, hscope, hm⟩
    | true =>
      refine Or.inl ((h.nested t).writes_pos.mpr ?_)
      exact List.countP_pos_iff.mpr ⟨scope, hscope, hm⟩
  · rintro (⟨scope, hscope, _⟩ | ⟨scope, hscope, _⟩) <;> exact List.ne_nil_of_mem hscope

/-- An object without open scopes is as new. -/
theorem Counts.idle_iff (h : Counts d scopes) :
    (∀ t, scopes t = []) ↔ d.read = [] ∧ d.write = none := by
  constructor
  · intro hnone
    constructor
    · by_contra hne
      obtain ⟨t, ht⟩ := List.exists_mem_of_ne_nil _ hne
      exact (h.scopes_iff t).mpr (Or.inr ((h.registered_iff t).mpr ht)) (hnone t)
    · by_contra hne
      obtain ⟨t, ht⟩ := Option.ne_none_iff_exists'.mp hne
      exact (h.scopes_iff t).mpr (Or.inl ((h.writes_iff t).mpr ht)) (hnone t)
  · rintro ⟨hread, hwrite⟩ t
    by_contra hne
    rcases (h.scopes_iff t).mp hne with hwrites | hregistered
    · rw [h.writes_iff, hwrite] at hwrites
      exact absurd hwrites (by simp)
    · rw [h.registered_iff, hread] at hregistered
      exact absurd hregistered List.not_mem_nil

/-! ### What a step does to the account -/

theorem Counts.openWrite (h : Counts d scopes) (t : τ) {write : Bool}
    (hwrite : write = true ∨ Writes scopes t) (hother : ∀ t', t' ≠ t → ¬Writes scopes t') :
    Counts { d with write := some t, writeRecursion := d.writeRecursion + 1 }
      (Function.update scopes t (⟨write, true⟩ :: scopes t)) where
  read t' := by
    by_cases ht : t' = t
    · subst ht
      simp only [Function.update_self, reads_cons]
      exact h.read t'
    · simp only [Function.update_of_ne ht]
      exact h.read t'
  write t' := by
    by_cases ht : t' = t
    · subst ht
      have hold : writes (scopes t') = d.writeRecursion := by
        rw [h.write t']
        split
        next => rfl
        next hne =>
          have hnone : d.write = none := by
            by_contra hsome
            obtain ⟨t'', ht''⟩ := Option.ne_none_iff_exists'.mp hsome
            refine hother t'' ?_ ((h.writes_iff t'').mpr ht'')
            rintro rfl
            exact hne ht''
          rw [h.idle.mp hnone]
      simp only [Function.update_self, writes_cons, if_true, hold]
    · have hnot : writes (scopes t') = 0 := by
        have hnone := hother t' ht
        rw [Writes, (h.nested t').writes_pos] at hnone
        omega
      have hne : some t ≠ some t' := fun heq => ht (Option.some.inj heq).symm
      simp only [Function.update_of_ne ht, hnot, if_neg hne]
  idle := by simp
  nested := Nested.update h.nested t ⟨fun _ => rfl, fun _ => hwrite, h.nested t⟩

theorem Counts.openRead (h : Counts d scopes) (t : τ) :
    Counts { d with read := d.read ++ [t] }
      (Function.update scopes t (⟨false, false⟩ :: scopes t)) where
  read t' := by
    by_cases ht : t' = t
    · subst ht
      simp [reads_cons, h.read t']
    · have hne : t ≠ t' := Ne.symm ht
      simp [Function.update_of_ne ht, hne, h.read t']
  write t' := by
    have hold := h.write t'
    by_cases ht : t' = t
    · subst ht
      simpa [writes_cons] using hold
    · simpa [Function.update_of_ne ht] using hold
  idle := h.idle
  nested := Nested.update h.nested t
    ⟨fun hf => absurd hf (by simp), fun hf => absurd hf (by simp), h.nested t⟩

theorem Counts.closeWrite (h : Counts d scopes) {t : τ} {scope : Scope} {outer : List Scope}
    (ht : scopes t = scope :: outer) (hm : scope.mWrite = true) :
    Counts
      { d with
        write := if d.writeRecursion - 1 = 0 then none else d.write
        writeRecursion := d.writeRecursion - 1 }
      (Function.update scopes t outer) := by
  have hread := h.read t
  have hwrite := h.write t
  have hnested := h.nested t
  rw [ht] at hread hwrite hnested
  rw [reads_cons, if_pos hm] at hread
  rw [writes_cons, if_pos hm] at hwrite
  have hthis : d.write = some t := by
    by_contra hne
    rw [if_neg hne] at hwrite
    omega
  rw [if_pos hthis] at hwrite
  have hleft : d.writeRecursion - 1 = writes outer := by omega
  simp only [hleft]
  refine ⟨fun t' => ?_, fun t' => ?_, ?_, Nested.update h.nested t hnested.2.2⟩
  · by_cases heq : t' = t
    · rw [heq, Function.update_self]
      exact hread
    · rw [Function.update_of_ne heq]
      exact h.read t'
  · by_cases heq : t' = t
    · rw [heq, Function.update_self, hthis]
      by_cases hzero : writes outer = 0
      · simp [hzero]
      · simp [hzero]
    · have hne : some t ≠ some t' := fun hsome => heq (Option.some.inj hsome).symm
      have hother := h.write t'
      rw [hthis, if_neg hne] at hother
      rw [Function.update_of_ne heq, hother, hthis]
      by_cases hzero : writes outer = 0
      · simp [hzero]
      · simp [hzero, Ne.symm heq]
  · by_cases hzero : writes outer = 0
    · simp [hzero]
    · simp [hzero, hthis]

theorem Counts.closeRead (h : Counts d scopes) {t : τ} {scope : Scope} {outer : List Scope}
    (ht : scopes t = scope :: outer) (hm : scope.mWrite = false) :
    Counts { d with read := unorderedErase d.read t } (Function.update scopes t outer) := by
  have hread := h.read t
  have hwrite := h.write t
  have hnested := h.nested t
  rw [ht] at hread hwrite hnested
  simp only [reads_cons, writes_cons, hm, Bool.false_eq_true, if_false, Nat.add_zero] at hread hwrite
  have herase : ∀ t', (unorderedErase d.read t).count t' = (d.read.erase t).count t' :=
    fun t' => (unorderedErase_perm d.read t).count_eq t'
  refine ⟨fun t' => ?_, fun t' => ?_, h.idle, Nested.update h.nested t hnested.2.2⟩
  · by_cases heq : t' = t
    · rw [heq, Function.update_self, herase, List.count_erase_self, hread, Nat.add_sub_cancel]
    · rw [Function.update_of_ne heq, herase, List.count_erase_of_ne heq]
      exact h.read t'
  · by_cases heq : t' = t
    · rw [heq, Function.update_self]
      exact hwrite
    · rw [Function.update_of_ne heq]
      exact h.write t'

theorem accounted_initial : Accounted ({} : State τ) where
  counts := ⟨fun _ => rfl, fun _ => rfl, by simp, fun _ => trivial⟩
  present _ h := absurd h (by simp)

variable {s : State τ}

/-- The entry that is left when an idle object loses its own. -/
theorem Counts.accounted (h : Counts d scopes) (failure : Option Failure) :
    Accounted
      { entry := if d.read = [] ∧ d.write = none then none else some d
        scopes := scopes
        failure := failure } := by
  by_cases hidle : d.read = [] ∧ d.write = none
  · have hnew : d = {} := by
      obtain ⟨hread, hwrite⟩ := hidle
      have hzero := h.idle.mp hwrite
      cases d
      simp only at hread hwrite hzero
      rw [hread, hwrite, hzero]
    simp only [if_pos hidle]
    rw [hnew] at h
    exact ⟨h, fun _ hd => absurd hd (by simp)⟩
  · simp only [if_neg hidle]
    refine ⟨h, fun d' hd' => ?_⟩
    obtain rfl := Option.some.inj hd'
    exact not_and_or.mp hidle

theorem Accounted.gone (h : Accounted s) (hnone : ∀ t, s.scopes t = []) : s.entry = none := by
  by_contra hne
  obtain ⟨d, hd⟩ := Option.ne_none_iff_exists'.mp hne
  have hidle := h.counts.idle_iff.mp hnone
  rw [hd, Option.getD_some] at hidle
  rcases h.present d hd with hread | hwrite
  · exact hread hidle.1
  · exact hwrite hidle.2

/-! ### What the checker answers -/

/-- A write is let in unless another thread stands in the list of reads. -/
theorem construct_write (h : Counts (s.entry.getD {}) s.scopes) (t : τ) :
    ((∃ t', t' ≠ t ∧ Registered s.scopes t') → construct s.entry t true = .error .assertion) ∧
    ((¬∃ t', t' ≠ t ∧ Registered s.scopes t') → construct s.entry t true =
      .ok ({ s.entry.getD {} with
        write := if (s.entry.getD {}).writeRecursion = 0 then some t else (s.entry.getD {}).write
        writeRecursion := (s.entry.getD {}).writeRecursion + 1 }, true)) := by
  have honly : onlyPresent (s.entry.getD {}).read t = true ↔
      ¬∃ t', t' ≠ t ∧ Registered s.scopes t' := by
    simp only [onlyPresent, List.all_eq_true, decide_eq_true_eq, h.registered_iff, not_exists,
      not_and]
    exact ⟨fun hall t' hne hmem => hne (hall t' hmem), fun hall t' hmem => by
      by_contra hne
      exact hall t' hne hmem⟩
  constructor
  · intro hother
    have hnot : onlyPresent (s.entry.getD {}).read t = false := by
      rw [← Bool.not_eq_true, honly]
      exact not_not.mpr hother
    simp [construct, hnot]
  · intro hnone
    simp [construct, honly.mpr hnone]

/-- A read is let in unless another thread writes, as long as the list has room. -/
theorem construct_read (h : Counts (s.entry.getD {}) s.scopes) (t : τ) :
    (Writes s.scopes t → construct s.entry t false =
      .ok ({ s.entry.getD {} with
        writeRecursion := (s.entry.getD {}).writeRecursion + 1 }, true)) ∧
    ((∃ t', t' ≠ t ∧ Writes s.scopes t') → construct s.entry t false = .error .assertion) ∧
    ((∀ t', ¬Writes s.scopes t') → construct s.entry t false =
      if (s.entry.getD {}).read.length < inlineReads then
        .ok ({ s.entry.getD {} with read := (s.entry.getD {}).read ++ [t] }, false)
      else .error .growth) := by
  refine ⟨fun hthis => ?_, ?_, fun hnone => ?_⟩
  · rw [h.writes_iff] at hthis
    simp [construct, hthis]
  · rintro ⟨t', hne, hother⟩
    rw [h.writes_iff] at hother
    simp [construct, hother, hne]
  · have hwrite : (s.entry.getD {}).write = none := by
      by_contra hsome
      obtain ⟨t', ht'⟩ := Option.ne_none_iff_exists'.mp hsome
      exact hnone t' ((h.writes_iff t').mpr ht')
    simp [construct, hwrite]

theorem conflict_write (h : Counts (s.entry.getD {}) s.scopes) (t : τ) :
    Conflict s (.construct t true) ↔
      ∃ t', t' ≠ t ∧ (Writes s.scopes t' ∨ Registered s.scopes t') := by
  simp only [Conflict, or_true, and_true, ← h.scopes_iff, ← List.isEmpty_eq_false_iff_exists_mem,
    List.isEmpty_eq_false_iff]

omit [DecidableEq τ] in
theorem conflict_read (s : State τ) (t : τ) :
    Conflict s (.construct t false) ↔ ∃ t', t' ≠ t ∧ Writes s.scopes t' := by
  simp only [Conflict, Bool.false_eq_true, or_false]
  rfl

theorem step_construct (hrun : s.failure = none) (t : τ) (write : Bool) :
    s.step (.construct t write) =
      match construct s.entry t write with
      | .error failure => some { s with failure := some failure }
      | .ok (objectData, mWrite) =>
        some { s with
          entry := some objectData
          scopes := Function.update s.scopes t (⟨write, mWrite⟩ :: s.scopes t) } :=
  if_neg (not_not.mpr hrun)

/-- What follows a step: the program goes on with the account kept, or has ended. -/
structure Outcome (s : State τ) (e : Event τ) (s' : State τ) : Prop where
  conflict : Conflict s e → s'.failure = some .assertion
  passed : ¬Conflict s e → s'.failure = none
  accounted : s'.failure = none → Accounted s'

theorem outcome_failed {e : Event τ} (hconflict : Conflict s e) :
    Outcome s e { s with failure := some .assertion } where
  conflict _ := rfl
  passed hnot := absurd hconflict hnot
  accounted hf := absurd hf (by simp)

theorem outcome_passed {e : Event τ} {s' : State τ} (hconflict : ¬Conflict s e)
    (hrun : s'.failure = none) (h : Accounted s') : Outcome s e s' where
  conflict hc := absurd hc hconflict
  passed _ := hrun
  accounted _ := h

theorem outcome_write (h : Accounted s) (hrun : s.failure = none) {t : τ}
    (hcovered : Covered s (.construct t true)) {s' : State τ}
    (hs : s.step (.construct t true) = some s') : Outcome s (.construct t true) s' := by
  obtain ⟨hrefused, hpassed⟩ := construct_write h.counts t
  rw [step_construct hrun] at hs
  by_cases hreg : ∃ t', t' ≠ t ∧ Registered s.scopes t'
  · rw [hrefused hreg] at hs
    obtain rfl := Option.some.inj hs
    obtain ⟨t', hne, hin⟩ := hreg
    exact outcome_failed ((conflict_write h.counts t).mpr ⟨t', hne, Or.inr hin⟩)
  · have hother : ∀ t', t' ≠ t → ¬Writes s.scopes t' := fun t' hne hwrites =>
      hreg (hcovered ⟨t', hne, hwrites⟩)
    rw [hpassed hreg] at hs
    obtain rfl := Option.some.inj hs
    refine outcome_passed ?_ hrun ?_
    · rw [conflict_write h.counts]
      rintro ⟨t', hne, hwrites | hin⟩
      · exact hother t' hne hwrites
      · exact hreg ⟨t', hne, hin⟩
    · have hname : (if (s.entry.getD {}).writeRecursion = 0 then some t
          else (s.entry.getD {}).write) = some t := by
        split
        next => rfl
        next hne =>
          obtain ⟨t', ht'⟩ := Option.ne_none_iff_exists'.mp fun hnone => hne (h.counts.idle.mp hnone)
          have hsame : t' = t := by
            by_contra hne'
            exact hother t' hne' ((h.counts.writes_iff t').mpr ht')
          rw [ht', hsame]
      simp only [hname]
      refine ⟨h.counts.openWrite t (Or.inl rfl) hother, fun d hd => ?_⟩
      obtain rfl := Option.some.inj hd
      exact Or.inr (by simp)

theorem outcome_read (h : Accounted s) (hrun : s.failure = none) {t : τ}
    (hcovered : Covered s (.construct t false)) {s' : State τ}
    (hs : s.step (.construct t false) = some s') : Outcome s (.construct t false) s' := by
  obtain ⟨hnested, hrefused, hregistered⟩ := construct_read h.counts t
  rw [step_construct hrun] at hs
  by_cases hother : ∃ t', t' ≠ t ∧ Writes s.scopes t'
  · rw [hrefused hother] at hs
    obtain rfl := Option.some.inj hs
    exact outcome_failed ((conflict_read s t).mpr hother)
  · have hpass : ¬Conflict s (.construct t false) := fun hc => hother ((conflict_read s t).mp hc)
    by_cases hthis : Writes s.scopes t
    · rw [hnested hthis] at hs
      obtain rfl := Option.some.inj hs
      refine outcome_passed hpass hrun ⟨?_, fun d hd => ?_⟩
      · have hopen := h.counts.openWrite t (Or.inr hthis : false = true ∨ _) fun t' hne hwrites =>
          hother ⟨t', hne, hwrites⟩
        rw [← (h.counts.writes_iff t).mp hthis] at hopen
        exact hopen
      · obtain rfl := Option.some.inj hd
        exact Or.inr (by simp [(h.counts.writes_iff t).mp hthis])
    · have hnone : ∀ t', ¬Writes s.scopes t' := fun t' hwrites => by
        by_cases hsame : t' = t
        · exact hthis (hsame ▸ hwrites)
        · exact hother ⟨t', hsame, hwrites⟩
      rw [hregistered hnone, if_pos (hcovered hnone)] at hs
      obtain rfl := Option.some.inj hs
      refine outcome_passed hpass hrun ⟨h.counts.openRead t, fun d hd => ?_⟩
      obtain rfl := Option.some.inj hd
      exact Or.inl (by simp)

theorem outcome_destroy (h : Accounted s) (hrun : s.failure = none) {t : τ} {s' : State τ}
    (hs : s.step (.destroy t) = some s') : Outcome s (.destroy t) s' := by
  have hstep : s.step (.destroy t) = match s.scopes t with
      | [] => none
      | scope :: outer =>
        match destroy s.entry t scope.mWrite with
        | .error failure => some { s with failure := some failure }
        | .ok entry => some { s with entry := entry, scopes := Function.update s.scopes t outer } :=
    if_neg (not_not.mpr hrun)
  rw [hstep] at hs
  cases hscopes : s.scopes t with
  | nil =>
    rw [hscopes] at hs
    exact absurd hs (by simp)
  | cons scope outer =>
    rw [hscopes] at hs
    have hentry : s.entry ≠ none := by
      intro hnone
      have hidle := h.counts.idle_iff.mpr (by rw [hnone]; exact ⟨rfl, rfl⟩) t
      rw [hscopes] at hidle
      exact absurd hidle (by simp)
    obtain ⟨d, hd⟩ := Option.ne_none_iff_exists'.mp hentry
    have hcounts := h.counts
    rw [hd, Option.getD_some] at hcounts
    simp only [hd, destroy] at hs
    obtain rfl := Option.some.inj hs
    refine outcome_passed (fun hc => hc) hrun ?_
    cases hm : scope.mWrite with
    | true =>
      simp only [if_true]
      exact (hcounts.closeWrite hscopes hm).accounted s.failure
    | false =>
      simp only [Bool.false_eq_true, if_false]
      exact (hcounts.closeRead hscopes hm).accounted s.failure

/-- A covered step of an accounted state has the right outcome. -/
theorem outcome (h : Accounted s) (hrun : s.failure = none) {e : Event τ} (hcovered : Covered s e)
    {s' : State τ} (hs : s.step e = some s') : Outcome s e s' := by
  cases e with
  | construct t write =>
    cases write with
    | true => exact outcome_write h hrun hcovered hs
    | false => exact outcome_read h hrun hcovered hs
  | destroy t => exact outcome_destroy h hrun hs

/-- A step that is not covered lets a write in beside another, or reads past the storage. -/
theorem covered_of_exact (h : Accounted s) (hrun : s.failure = none) {e : Event τ}
    (hexact : Exact s e) : Covered s e := by
  cases e with
  | destroy t => trivial
  | construct t write =>
    cases write with
    | true =>
      rintro ⟨t', hne, hwrites⟩
      by_contra hreg
      have hstep := step_construct hrun t true
      rw [(construct_write h.counts t).2 hreg] at hstep
      have hfailed := (hexact _ hstep).1
        ((conflict_write h.counts t).mpr ⟨t', hne, Or.inl hwrites⟩)
      rw [hrun] at hfailed
      exact absurd hfailed (by simp)
    | false =>
      intro hnone
      by_contra hfull
      have hstep := step_construct hrun t false
      rw [(construct_read h.counts t).2.2 hnone, if_neg hfull] at hstep
      have hpassed := (hexact _ hstep).2.1 fun hc => by
        obtain ⟨t', _, hwrites⟩ := (conflict_read s t).mp hc
        exact hnone t' hwrites
      exact absurd hpassed (by simp)

theorem exact_of_covered (h : Accounted s) (hrun : s.failure = none) {e : Event τ}
    (hcovered : Covered s e) : Exact s e := by
  intro s' hs
  have hout := outcome h hrun hcovered hs
  exact ⟨hout.conflict, hout.passed, fun hrun' => (hout.accounted hrun').gone⟩

theorem running_of_step {e : Event τ} {s' : State τ} (hs : s.step e = some s') :
    s.failure = none := by
  by_contra hne
  unfold State.step at hs
  rw [if_pos hne] at hs
  exact absurd hs (by simp)

/-- In a run from the first scope on the checker is exact at every step precisely when every
step is covered. -/
theorem exact_iff_covered {ls : List (Event τ)} {s' : State τ}
    (hs : (checkerMachine τ).exec {} ls = some s') :
    (checkerMachine τ).Follows Exact {} ls ↔ (checkerMachine τ).Follows Covered {} ls := by
  refine Machine.follows_iff (I := fun s => s.failure = none → Accounted s) ?_ ?_
    (fun _ => accounted_initial) hs
  · intro s l s' hI hexact hstep
    have hrun := running_of_step hstep
    have hcovered := covered_of_exact (hI hrun) hrun hexact
    exact (outcome (hI hrun) hrun hcovered hstep).accounted
  · intro s l s' hI hstep
    have hrun := running_of_step hstep
    exact ⟨covered_of_exact (hI hrun) hrun, exact_of_covered (hI hrun) hrun⟩

/-- Two readers, one of which becomes the writer once it is alone. -/
theorem exact_iff_covered_readers :
    let ls : List (Event Nat) := [.construct 0 false, .construct 1 false, .destroy 1,
      .construct 0 true, .construct 0 false, .destroy 0, .destroy 0, .destroy 0]
    (checkerMachine Nat).Follows Exact {} ls ↔ (checkerMachine Nat).Follows Covered {} ls :=
  exact_iff_covered rfl

/-- A thread begins a write inside the write of another and no assertion fails. -/
theorem second_writer_passes :
    ∃ s s' : State Nat, (checkerMachine Nat).exec {} [.construct 0 true] = some s ∧
      s.step (.construct 1 true) = some s' ∧ Conflict s (.construct 1 true) ∧
      s'.failure = none ∧ ¬Exact s (.construct 1 true) := by
  have hconflict : Conflict
      { entry := some { write := some 0, writeRecursion := 1 },
        scopes := Function.update (fun _ => []) 0 [⟨true, true⟩] : State Nat }
      (.construct 1 true) :=
    ⟨0, by decide, ⟨true, true⟩, by simp, Or.inl rfl⟩
  refine ⟨_, _, rfl, rfl, hconflict, rfl, fun h => ?_⟩
  have hfailed := (h _ rfl).1 hconflict
  exact absurd hfailed (by simp)

end CosmicArchitect.Util.DebugThreadChecker
