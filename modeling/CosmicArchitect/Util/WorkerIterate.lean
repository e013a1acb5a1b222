import CosmicArchitect.Util.PolyEntities

/-!
# Iteration by workers (`WorkerIterate`, PolyFactory.h)

Every worker takes a part of each `polys` list. The parts are positions; an iterator that is
dereferenced at the end of its list or behind it makes the call `none`.
-/

namespace CosmicArchitect.Util.PolyFactory
open PolyType

section Loops
variable {α β : Type} {visit : α → Option (List β)} {x : α} {xs : List α} {visited : List β}

/-- The callbacks of a loop whose passes may fail. -/
def visitAll (visit : α → Option (List β)) : List α → Option (List β)
  | [] => some []
  | x :: xs => do
    let here ← visit x
    let rest ← visitAll visit xs
    some (here ++ rest)

theorem visitAll_cons : visitAll visit (x :: xs) = some visited ↔ ∃ here rest,
    visit x = some here ∧ visitAll visit xs = some rest ∧ here ++ rest = visited := by
  simp [visitAll, Option.bind_eq_some_iff]

/-- A loop that does not fail has visited what each of its passes visits. -/
theorem visitAll_mem (h : visitAll visit xs = some visited) (hx : x ∈ xs) :
    ∃ here, visit x = some here ∧ here ⊆ visited := by
  induction xs generalizing visited with
  | nil => cases hx
  | cons y xs ih =>
    obtain ⟨here, rest, hhere, hrest, rfl⟩ := visitAll_cons.mp h
    cases hx with
    | head => exact ⟨here, hhere, List.subset_append_left here rest⟩
    | tail _ hx =>
      obtain ⟨there, hthere, hsub⟩ := ih hrest hx
      exact ⟨there, hthere, List.subset_append_of_subset_right here hsub⟩

theorem visitAll_nil (h : ∀ x ∈ xs, visit x = some []) : visitAll visit xs = some [] := by
  induction xs with
  | nil => rfl
  | cons y xs ih =>
    apply visitAll_cons.mpr
    exact ⟨[], [], h y List.mem_cons_self, ih fun x hx => h x (List.mem_cons_of_mem y hx), rfl⟩

/-- The loop from the iterator `it` over `n` elements. -/
def visitRange (polys : List β) (it : Nat) : Nat → Option (List β)
  | 0 => some []
  | n + 1 => do
    let poly ← polys[it]?
    let rest ← visitRange polys (it + 1) n
    some (poly :: rest)

theorem visitRange_eq (polys : List β) (n : Nat) : ∀ it, it + n ≤ polys.length →
    visitRange polys it n = some ((polys.drop it).take n) := by
  induction n with
  | zero =>
    intro it _
    rfl
  | succ n ih =>
    intro it hle
    have hlt : it < polys.length := by omega
    rw [visitRange, List.getElem?_eq_getElem hlt, ih (it + 1) (by omega),
      List.drop_eq_getElem_cons hlt]
    rfl

theorem visitRange_none (polys : List β) (n : Nat) : ∀ it, polys.length < it + n → 0 < n →
    visitRange polys it n = none := by
  induction n with
  | zero =>
    intro it _ hpos
    omega
  | succ n ih =>
    intro it hlt _
    by_cases hin : it < polys.length
    · simp only [visitRange, ih (it + 1) (by omega) (by omega), Option.bind_eq_bind,
        Option.bind_none, Option.bind_fun_none]
    · rw [visitRange, List.getElem?_eq_none (by omega)]
      rfl

end Loops

variable {N : Nat} {PolyID V CB : Type} [DecidableEq PolyID] {C : Components PolyID V}
  {f : PolyFactory N PolyID V CB} {types : TypeID N} {workerCount workerIndex : Nat}

/-- The part of one worker of a `polys` list (lines 351-360); `end` starts from the end of the
list. -/
def workerPart (workerCount workerIndex : Nat) (polys : List Nat) : Option (List Nat) :=
  let len := polys.length
  let lenPerWorker := len / workerCount
  let first := workerIndex * lenPerWorker
  let last := len + workerIndex * lenPerWorker + lenPerWorker
  visitRange polys first (last - first)

/-- `WorkerIterate` (lines 344-364): the polys it calls back for. -/
def workerIterate (f : PolyFactory N PolyID V CB) (types : TypeID N) (workerCount workerIndex : Nat) :
    Option (List Nat) :=
  visitAll (fun e : Sigma fun _ : TypeID N => Nat =>
    if Includes e.1 types then
      (f.archetypeEntry e.2).bind fun entry => workerPart workerCount workerIndex entry.polys
    else some []) f.archetypes.entries

/-- The calls of all workers. -/
def workersIterate (f : PolyFactory N PolyID V CB) (types : TypeID N) (workerCount : Nat) :
    Option (List Nat) :=
  visitAll (workerIterate f types workerCount) (List.range workerCount)

/-- No call leaves a `polys` list, and together they visit the polys that have all the types,
each once. -/
def WorkersPartition (f : PolyFactory N PolyID V CB) (types : TypeID N) (workerCount : Nat) : Prop :=
  ∃ visited, workersIterate f types workerCount = some visited ∧ visited.Nodup ∧
    ∀ h, h ∈ visited ↔ ∃ id e, f.entries.lookup id = some e ∧ e.header = h ∧ Includes e.typeId types

/-- With no more workers than polys, every part ends behind the end of the list. -/
theorem workerPart_none {polys : List Nat} (hpos : 0 < workerCount)
    (hlen : workerCount ≤ polys.length) : workerPart workerCount workerIndex polys = none := by
  have hper : 0 < polys.length / workerCount := Nat.div_pos hlen hpos
  unfold workerPart
  apply visitRange_none <;> omega

/-- With more workers than polys, every worker takes the whole list. -/
theorem workerPart_all {polys : List Nat} (hlen : polys.length < workerCount) :
    workerPart workerCount workerIndex polys = some polys := by
  have hper : polys.length / workerCount = 0 := Nat.div_eq_of_lt hlen
  simp only [workerPart, hper, Nat.mul_zero, Nat.add_zero, Nat.sub_zero]
  rw [visitRange_eq polys polys.length 0 (by omega), List.drop_zero, List.take_length]

/-- A poly that a worker has to visit lies in the part of every worker, if there are parts. -/
theorem mem_workerIterate (hf : TablesAgree f) {id : PolyID} {e : PolyEntry N}
    (he : f.entries.lookup id = some e) (hinc : Includes e.typeId types) (hpos : 0 < workerCount)
    {visited : List Nat} (hvisit : workerIterate f types workerCount workerIndex = some visited) :
    e.header ∈ visited ∧ 1 < workerCount := by
  obtain ⟨-, hlookup, -⟩ := hf.entry id e he
  obtain ⟨entry, hentry, -, -, -, hmem⟩ := hf.polys e.typeId e.archetype hlookup
  have hin : e.header ∈ entry.polys := (hmem e.header).mpr ⟨id, e, he, rfl, rfl⟩
  have hrow : (⟨e.typeId, e.archetype⟩ : Sigma fun _ : TypeID N => Nat) ∈ f.archetypes.entries :=
    AList.mem_lookup_iff.mp hlookup
  obtain ⟨here, hhere, hsub⟩ := visitAll_mem hvisit hrow
  simp only [if_pos hinc, hentry, Option.bind_some] at hhere
  have hlen : entry.polys.length < workerCount := by
    by_contra hc
    rw [workerPart_none hpos (by omega)] at hhere
    cases hhere
  rw [workerPart_all hlen] at hhere
  cases hhere
  have hlong := List.length_pos_of_mem hin
  exact ⟨hsub hin, by omega⟩

theorem TablesAgree.workersPartition_iff (hf : TablesAgree f) (hpos : 0 < workerCount) :
    WorkersPartition f types workerCount ↔
      ∀ id e, f.entries.lookup id = some e → ¬ Includes e.typeId types := by
  constructor
  · intro hpart id e he hinc
    obtain ⟨visited, hvisited, hnodup, -⟩ := hpart
    obtain ⟨first, hfirst, -⟩ := visitAll_mem hvisited (List.mem_range.mpr hpos)
    obtain ⟨-, hmany⟩ := mem_workerIterate hf he hinc hpos hfirst
    -- two workers visit the poly
    obtain ⟨k, rfl⟩ : ∃ k, workerCount = k + 2 := ⟨workerCount - 2, by omega⟩
    rw [workersIterate, List.range_eq_range', List.range'_succ, List.range'_succ] at hvisited
    obtain ⟨v₀, rest, hv₀, hrest, rfl⟩ := visitAll_cons.mp hvisited
    obtain ⟨v₁, rest, hv₁, -, rfl⟩ := visitAll_cons.mp hrest
    have h₀ := (mem_workerIterate hf he hinc hpos hv₀).1
    have h₁ := (mem_workerIterate hf he hinc hpos hv₁).1
    exact (List.nodup_append.mp hnodup).2.2 _ h₀ _ (List.mem_append_left rest h₁) rfl
  · intro hnone
    refine ⟨[], ?_, List.nodup_nil, ?_⟩
    · apply visitAll_nil
      intro i _
      apply visitAll_nil
      intro row hrow
      have hrow' : f.archetypes.lookup row.1 = some row.2 := AList.mem_lookup_iff.mpr hrow
      obtain ⟨id, e, he, ht⟩ := (hf.exists_iff row.1).mp (by rw [hrow']; rfl)
      have hnot := hnone id e he
      rw [ht] at hnot
      exact if_neg hnot
    · intro h
      constructor
      · intro hh
        cases hh
      · intro hown
        obtain ⟨id, e, he, -, hinc⟩ := hown
        exact absurd hinc (hnone id e he)

/-- In every reachable state the workers partition the polys with all the types if and only if
there is no such poly. -/
theorem workers_partition_polys_iff (C : Components PolyID V)
    (hs : (factoryMachine C).Reachable (some f)) (types : TypeID N) (hpos : 1 ≤ workerCount) :
    WorkersPartition f types workerCount ↔
      ∀ id e, f.entries.lookup id = some e → ¬ Includes e.typeId types := by
  obtain ⟨f', hf', hagree, -⟩ := tables_agree C hs
  cases hf'
  exact hagree.workersPartition_iff hpos

/- One poly with the types 1 and 2. -/
def onePoly : List (Label 40 Nat (Option Nat) Nat) := [.getPoly 7 0x6#40 ⟨0, 0⟩]

theorem workers_partition_polys_onePoly : ∃ f,
    (factoryMachine parentComponents).exec (some {}) onePoly = some (some f) ∧
      WorkersPartition f 0x8#40 2 := by
  obtain ⟨f, hf, hnone⟩ : ∃ f,
      (factoryMachine parentComponents).exec (some {}) onePoly = some (some f) ∧
        ∀ e ∈ f.entries.entries, ¬ Includes e.2.typeId 0x8#40 := ⟨_, rfl, by decide +kernel⟩
  refine ⟨f, hf, ?_⟩
  apply (workers_partition_polys_iff parentComponents (Library.Machine.reachable_of_exec rfl hf)
    0x8#40 (by omega)).mpr
  intro id e he
  exact hnone ⟨id, e⟩ (AList.mem_lookup_iff.mp he)

/-- A single worker runs behind the end of the list; the second of two visits the poly again. -/
theorem workers_overrun_onePoly : ∃ f,
    (factoryMachine parentComponents).exec (some {}) onePoly = some (some f) ∧
      workersIterate f 0x2#40 1 = none ∧ workersIterate f 0x2#40 2 = some [0, 0] ∧
      ¬ WorkersPartition f 0x2#40 1 ∧ ¬ WorkersPartition f 0x2#40 2 := by
  obtain ⟨f, hf, hone, htwo⟩ : ∃ f,
      (factoryMachine parentComponents).exec (some {}) onePoly = some (some f) ∧
        workersIterate f 0x2#40 1 = none ∧ workersIterate f 0x2#40 2 = some [0, 0] :=
    ⟨_, rfl, by decide +kernel, by decide +kernel⟩
  refine ⟨f, hf, hone, htwo, ?_, ?_⟩
  · rintro ⟨visited, hvisited, -⟩
    rw [hone] at hvisited
    cases hvisited
  · rintro ⟨visited, hvisited, hnodup, -⟩
    rw [htwo] at hvisited
    cases hvisited
    revert hnodup
    decide

end CosmicArchitect.Util.PolyFactory
