import Mathlib.Data.List.AList
import CosmicArchitect.RobinHood.Iterate

/-!
# The tables are finite maps

Whatever the hash function, a table answers every call as the map of its entries does, for as long as no call
throws. A call throws only when there are at least 127 entries.
-/

namespace CosmicArchitect.RobinHood
open Table

variable {K V : Type} {hash : K → BitVec 64} {t : Table K V}

/-- A call on a map. `modify` is `operator[]` with what the caller does to the reference, `find`
also stands for `at`, and `eraseIf` for a loop that calls `erase(pos)`. -/
inductive Call (K V : Type)
  | emplace (key : K) (value : V)
  | tryEmplace (key : K) (value : V)
  | insertOrAssign (key : K) (value : V)
  | modify (key : K) (f : V → V)
  | find (key : K)
  | count (key : K)
  | size
  | eraseKey (key : K)
  | eraseIf (p : K × V → Bool)
  | forEach
  | clear

/-- What the caller gets: the entry an iterator points to and whether it is new, a value, a number,
or the entries that a loop sees. -/
inductive Answer (K V : Type)
  | entry (e : K × V) (isNew : Bool)
  | value (v : Option V)
  | number (n : Nat)
  | entries (es : Multiset (K × V))
  | done

variable [DecidableEq K] [Inhabited V]

/-! ### Calls on a table -/

namespace Table

/-- The entry at the iterator of an insertion. -/
def inserted (r : Except Failure (Table K V × Nat × Bool)) :
    Except Failure (Table K V × Answer K V) := do
  let (t, idx, isNew) ← r
  let node ← t.nodeAt idx
  .ok (t, .entry node isNew)

def call (hash : K → BitVec 64) (t : Table K V) :
    Call K V → Except Failure (Table K V × Answer K V)
  | .emplace key value => inserted (t.emplace hash key value)
  | .tryEmplace key value => inserted (t.tryEmplace hash key value)
  | .insertOrAssign key value => inserted (t.insertOrAssign hash key value)
  | .modify key f => do
    let (t, idx) ← t.subscript hash key
    let node ← t.nodeAt idx
    let t ← t.assign idx (node.1, f node.2)
    .ok (t, .value (some (f node.2)))
  | .find key => do
    let v ← t.atKey hash key
    .ok (t, .value v)
  | .count key => do
    let n ← t.count hash key
    .ok (t, .number n)
  | .size => .ok (t, .number t.numElements)
  | .eraseKey key => do
    let (t, n) ← t.eraseKey hash key
    .ok (t, .number n)
  | .eraseIf p => do
    let (t, seen) ← t.sweep (fun seen e => (p e, seen ++ [e])) []
    .ok (t, .entries seen)
  | .forEach => do
    let seen ← t.forEach (fun seen e => seen ++ [e]) []
    .ok (t, .entries seen)
  | .clear => do
    let t ← t.clear
    .ok (t, .done)

def run (hash : K → BitVec 64) : List (Call K V) → Table K V →
    Except Failure (Table K V × List (Answer K V))
  | [], t => .ok (t, [])
  | c :: cs, t => do
    let (t, answer) ← t.call hash c
    let (t, answers) ← run hash cs t
    .ok (t, answer :: answers)

end Table

/-! ### Calls on a finite map -/

abbrev Map (K V : Type) := AList fun _ : K => V

namespace Map

def pairs (m : Map K V) : List (K × V) := m.entries.map fun s => (s.1, s.2)

/-- The entries that do not satisfy `p`. -/
def without (m : Map K V) (p : K × V → Bool) : Map K V :=
  ⟨m.entries.filter fun s => !p (s.1, s.2), m.nodupKeys.sublist List.filter_sublist⟩

def call (m : Map K V) : Call K V → Map K V × Answer K V
  | .emplace key value | .tryEmplace key value =>
    match m.lookup key with
    | some v => (m, .entry (key, v) false)
    | none => (m.insert key value, .entry (key, value) true)
  | .insertOrAssign key value =>
    (m.insert key value, .entry (key, value) (m.lookup key).isNone)
  | .modify key f =>
    (m.insert key (f ((m.lookup key).getD default)), .value (some (f ((m.lookup key).getD default))))
  | .find key => (m, .value (m.lookup key))
  | .count key => (m, .number (if (m.lookup key).isSome then 1 else 0))
  | .size => (m, .number m.entries.length)
  | .eraseKey key => (m.erase key, .number (if (m.lookup key).isSome then 1 else 0))
  | .eraseIf p => (m.without p, .entries m.pairs)
  | .forEach => (m, .entries m.pairs)
  | .clear => (∅, .done)

def run : List (Call K V) → Map K V → Map K V × List (Answer K V)
  | [], m => (m, [])
  | c :: cs, m => ((run cs (m.call c).1).1, (m.call c).2 :: (run cs (m.call c).1).2)

omit [Inhabited V] [DecidableEq K] in
theorem mem_pairs {m : Map K V} {e : K × V} : e ∈ m.pairs ↔ (⟨e.1, e.2⟩ : (_ : K) × V) ∈ m.entries := by
  unfold pairs
  rw [List.mem_map]
  constructor
  · rintro ⟨s, hs, rfl⟩
    exact hs
  · exact fun he => ⟨_, he, rfl⟩

omit [Inhabited V] in
theorem mem_pairs_iff_lookup {m : Map K V} {e : K × V} : e ∈ m.pairs ↔ m.lookup e.1 = some e.2 := by
  rw [mem_pairs, ← AList.mem_lookup_iff]
  rfl

omit [Inhabited V] [DecidableEq K] in
theorem pairs_nodup (m : Map K V) : m.pairs.Nodup := by
  refine List.Nodup.of_map Prod.fst ?_
  unfold pairs
  rw [List.map_map]
  exact m.keys_nodup

omit [Inhabited V] in
theorem lookup_without {m : Map K V} {p : K × V → Bool} {k : K} {v : V} :
    (m.without p).lookup k = some v ↔ m.lookup k = some v ∧ p (k, v) = false := by
  have hmem : ∀ m : Map K V, m.lookup k = some v ↔ (⟨k, v⟩ : (_ : K) × V) ∈ m.entries :=
    fun m => AList.mem_lookup_iff
  rw [hmem, hmem]
  show _ ∈ m.entries.filter _ ↔ _
  rw [List.mem_filter]
  simp

end Map

/-! ### The refinement -/

/-- The map of the entries of a table. -/
structure Refines (hash : K → BitVec 64) (t : Table K V) (m : Map K V) : Prop where
  inv : t.Inv hash
  mem : ∀ e, t.Mem e ↔ m.lookup e.1 = some e.2

section
omit [Inhabited V]
variable {m : Map K V}

theorem refines_empty (hash : K → BitVec 64) : Refines hash ({} : Table K V) ∅ := by
  have hnone : ∀ i, ({} : Table K V).occ i = none := fun i => rfl
  have hempty : ∀ {i e}, ({} : Table K V).occ i ≠ some e := fun {i e} he => by cases he
  refine ⟨⟨⟨Nat.zero_le 4, rfl⟩, ?_, ?_, fun i => ?_, rfl, Or.inl rfl, rfl, Nat.zero_le _, Or.inl rfl,
    fun he => absurd he hempty, fun _ _ _ he => absurd he hempty⟩, fun e => ?_⟩
  · exact ⟨fun he => absurd he hempty, fun he => absurd he hempty, fun _ he => absurd he hempty⟩
  · exact fun _ _ _ _ he => absurd he hempty
  · rw [hnone]
    show (List.replicate 8 0)[i]? = if i = 0 ∧ 0 ≠ 0 then some 1 else if i < 0 + 8 then some 0 else none
    rw [if_neg (fun hc => hc.2 rfl), List.getElem?_replicate, Nat.zero_add]
  · rw [AList.lookup_empty]
    refine iff_of_false ?_ (by simp)
    rintro ⟨i, hi⟩
    cases hi

namespace Refines
variable (h : Refines hash t m)
include h

theorem entries_perm : t.entries.Perm m.pairs := by
  refine (List.perm_ext_iff_of_nodup h.inv.entries_nodup m.pairs_nodup).mpr fun e => ?_
  rw [mem_entries, h.mem, Map.mem_pairs_iff_lookup]

theorem numElements : t.numElements = m.entries.length := by
  rw [← h.inv.length_entries, h.entries_perm.length_eq]
  exact List.length_map ..

theorem same {t' : Table K V} (hsame : Same hash t t') : Refines hash t' m :=
  ⟨hsame.inv, fun e => by rw [hsame.mem, h.mem]⟩

theorem put {t' : Table K V} {k : K} {v : V} {idx : Nat} (hput : Put hash t t' (k, v) idx) :
    Refines hash t' (m.insert k v) ∧ m.lookup k = none := by
  have hnone : m.lookup k = none := by
    by_contra hne
    obtain ⟨w, hw⟩ := Option.ne_none_iff_exists'.mp hne
    obtain ⟨i, hi⟩ := (h.mem (k, w)).mpr hw
    exact hput.absent i _ hi rfl
  refine ⟨⟨hput.inv, fun e => ?_⟩, hnone⟩
  rw [hput.mem, h.mem]
  by_cases hk : e.1 = k
  · rw [hk, AList.lookup_insert, hnone]
    constructor
    · rintro (rfl | hc)
      · rfl
      · cases hc
    · exact fun hv => Or.inl (Prod.ext hk (Option.some.inj hv).symm)
  · rw [AList.lookup_insert_ne hk]
    exact or_iff_right fun hc => hk (congrArg Prod.fst hc)

theorem removed {t' : Table K V} {k : K} {v : V} (hv : t.Mem (k, v))
    (hr : Removed hash t t' (k, v)) : Refines hash t' (m.erase k) ∧ m.lookup k = some v := by
  have hlookup := (h.mem _).mp hv
  refine ⟨⟨hr.inv, fun e => ?_⟩, hlookup⟩
  rw [hr.mem, h.mem]
  by_cases hk : e.1 = k
  · rw [hk, AList.lookup_erase]
    refine iff_of_false (fun ⟨hne, he⟩ => hne ?_) (by simp)
    exact Prod.ext hk (Option.some.inj (he.symm.trans hlookup))
  · rw [AList.lookup_erase_ne hk]
    exact and_iff_right fun hc => hk (congrArg Prod.fst hc)

theorem absent {k : K} (habsent : t.Absent k) : m.lookup k = none := by
  by_contra hne
  obtain ⟨v, hv⟩ := Option.ne_none_iff_exists'.mp hne
  obtain ⟨i, hi⟩ := (h.mem (k, v)).mpr hv
  exact habsent i _ hi rfl

theorem lookup {k : K} {v : V} {idx : Nat} (hocc : t.occ idx = some (k, v)) :
    m.lookup k = some v := (h.mem (k, v)).mp ⟨idx, hocc⟩

/-- Assigning to a value that an iterator points to. -/
theorem assign {k : K} {v' : V} {idx : Nat} (he : t.occ idx = some (k, v')) (v : V) :
    ∃ t', t.assign idx (k, v) = .ok t' ∧ Refines hash t' (m.insert k v) ∧
      t'.occ idx = some (k, v) ∧ t'.mask = t.mask := by
  obtain ⟨t', ht', hinv, hmask, hocc, hmem⟩ := assign_spec h.inv he v
  refine ⟨t', ht', ⟨hinv, fun e => ?_⟩, hocc, hmask⟩
  rw [hmem, h.mem]
  by_cases hk : e.1 = k
  · rw [hk, AList.lookup_insert]
    constructor
    · rintro (rfl | ⟨hne, -⟩)
      · rfl
      · exact absurd rfl hne
    · exact fun hv => Or.inl (Prod.ext hk (Option.some.inj hv).symm)
  · rw [AList.lookup_insert_ne hk]
    refine ⟨fun hor => ?_, fun he => Or.inr ⟨hk, he⟩⟩
    rcases hor with heq | ⟨-, he⟩
    · exact absurd (congrArg Prod.fst heq) hk
    · exact he

/-! ### One call -/

/-- `emplace` and `try_emplace` leave an entry that is there as it is. -/
theorem emplaceWith_keep (k : K) (v : V) :
    127 ≤ t.numElements ∧ t.emplaceWith hash k v (fun t _ => .ok t) = .error .overflow ∨
      ∃ t' idx v' isNew, t.emplaceWith hash k v (fun t _ => .ok t) = .ok (t', idx, isNew) ∧
        t'.occ idx = some (k, v') ∧ Grown t t' ∧
        (isNew = false ∧ m.lookup k = some v' ∧ Refines hash t' m ∨
          isNew = true ∧ v' = v ∧ m.lookup k = none ∧ Refines hash t' (m.insert k v)) := by
  rcases emplaceWith_spec h.inv k v fun t _ => .ok t with
    hfail | ⟨t₁, idx, hsame, ⟨v', hv'⟩, hok⟩ | ⟨t', idx, hok, hput⟩
  · exact Or.inl hfail
  · exact Or.inr ⟨t₁, idx, v', false, hok, hv', hsame.grown,
      Or.inl ⟨rfl, (h.same hsame).lookup hv', h.same hsame⟩⟩
  · obtain ⟨hrefines, hnone⟩ := h.put hput
    exact Or.inr ⟨t', idx, v, true, hok, hput.occ, hput.grown, Or.inr ⟨rfl, rfl, hnone, hrefines⟩⟩

theorem insertOrAssign_spec (k : K) (v : V) :
    127 ≤ t.numElements ∧ t.insertOrAssign hash k v = .error .overflow ∨
      ∃ t' idx, t.insertOrAssign hash k v = .ok (t', idx, (m.lookup k).isNone) ∧
        t'.occ idx = some (k, v) ∧ Grown t t' ∧ Refines hash t' (m.insert k v) := by
  rcases emplaceWith_spec h.inv k v fun t idx => t.assign idx (k, v) with
    hfail | ⟨t₁, idx, hsame, ⟨v', hv'⟩, hok⟩ | ⟨t', idx, hok, hput⟩
  · exact Or.inl hfail
  · obtain ⟨t', ht', hrefines, hocc, hmask⟩ := (h.same hsame).assign hv' v
    have hgrown : Grown t t' := by
      have := hsame.grown
      unfold Grown at this ⊢
      rwa [hmask]
    refine Or.inr ⟨t', idx, ?_, hocc, hgrown, hrefines⟩
    rw [(h.same hsame).lookup hv']
    unfold insertOrAssign
    rw [hok, ht']
    rfl
  · obtain ⟨hrefines, hnone⟩ := h.put hput
    refine Or.inr ⟨t', idx, ?_, hput.occ, hput.grown, hrefines⟩
    rw [hnone]
    exact hok

theorem atKey_spec (k : K) : t.atKey hash k = .ok (m.lookup k) := by
  obtain ⟨r, hfound, hr⟩ := h.inv.findIdx_spec k
  unfold atKey
  simp only [bind, Except.bind, hr]
  cases r with
  | none =>
    rw [Option.getD_none, if_pos rfl, h.absent hfound]
  | some s =>
    obtain ⟨v, hv⟩ := hfound
    have := lt_of_occ hv
    rw [Option.getD_some, if_neg (by rw [h.inv.endIdx_eq]; omega), nodeAt_occ hv, h.lookup hv]

theorem count_spec (k : K) : t.count hash k = .ok (if (m.lookup k).isSome then 1 else 0) := by
  obtain ⟨r, hfound, hr⟩ := h.inv.findIdx_spec k
  unfold count
  simp only [bind, Except.bind, hr]
  cases r with
  | none =>
    rw [Option.getD_none, if_neg (by simp), h.absent hfound]
    rfl
  | some s =>
    obtain ⟨v, hv⟩ := hfound
    have := lt_of_occ hv
    rw [Option.getD_some, if_pos (by rw [h.inv.endIdx_eq]; omega), h.lookup hv]
    rfl

theorem eraseKey_spec (k : K) : ∃ t', t.eraseKey hash k =
    .ok (t', if (m.lookup k).isSome then 1 else 0) ∧ t'.mask = t.mask ∧
      Refines hash t' (m.erase k) := by
  rcases Table.eraseKey_spec h.inv k with ⟨habsent, hok⟩ | ⟨v, t', hv, hok, hr⟩
  · have hnone := h.absent habsent
    have hnot : k ∉ m := by
      rw [← AList.lookup_isSome, hnone]
      simp
    refine ⟨t, by rw [hok, hnone]; rfl, rfl, h.inv, fun e => ?_⟩
    rw [h.mem]
    by_cases hk : e.1 = k
    · rw [hk, hnone, AList.lookup_erase]
    · rw [AList.lookup_erase_ne hk]
  · obtain ⟨hrefines, hsome⟩ := h.removed hv hr
    exact ⟨t', by rw [hok, hsome]; rfl, hr.mask, hrefines⟩

end Refines
end

/-- One call answers as the map does. -/
theorem call_spec {m : Map K V} (h : Refines hash t m) (c : Call K V) :
    127 ≤ t.numElements ∧ t.call hash c = .error .overflow ∨
      ∃ t', t.call hash c = .ok (t', (m.call c).2) ∧ Refines hash t' (m.call c).1 ∧
        Grown t t' := by
  have hsame : ∀ {t' : Table K V}, t'.mask = t.mask → Grown t t' := fun {t'} hmask => by
    unfold Grown
    omega
  have hkeep : ∀ k v, 127 ≤ t.numElements ∧
        inserted (t.emplaceWith hash k v fun t _ => .ok t) = .error .overflow ∨
      ∃ t', inserted (t.emplaceWith hash k v fun t _ => .ok t) =
        .ok (t', (m.call (.emplace k v)).2) ∧ Refines hash t' (m.call (.emplace k v)).1 ∧
        Grown t t' := by
    intro k v
    unfold inserted Map.call
    rcases h.emplaceWith_keep k v with
      ⟨hmany, hfail⟩ | ⟨t', idx, v', isNew, hok, hocc, hgrown, hcase⟩
    · rw [hfail]
      exact Or.inl ⟨hmany, rfl⟩
    · rw [hok]
      simp only [bind, Except.bind, nodeAt_occ hocc]
      rcases hcase with ⟨rfl, hlookup, hrefines⟩ | ⟨rfl, rfl, hlookup, hrefines⟩ <;> rw [hlookup]
      · exact Or.inr ⟨t', rfl, hrefines, hgrown⟩
      · exact Or.inr ⟨t', rfl, hrefines, hgrown⟩
  cases c with
  | emplace k v => exact hkeep k v
  | tryEmplace k v => exact hkeep k v
  | insertOrAssign k v =>
    unfold Table.call inserted Map.call
    rcases h.insertOrAssign_spec k v with ⟨hmany, hfail⟩ | ⟨t', idx, hok, hocc, hgrown, hrefines⟩
    · dsimp only
      rw [hfail]
      exact Or.inl ⟨hmany, rfl⟩
    · dsimp only
      rw [hok]
      simp only [bind, Except.bind, nodeAt_occ hocc]
      exact Or.inr ⟨t', rfl, hrefines, hgrown⟩
  | modify k f =>
    unfold Table.call subscript Map.call
    dsimp only
    rcases h.emplaceWith_keep k default with
      ⟨hmany, hfail⟩ | ⟨t₁, idx, v', isNew, hok, hocc, hgrown, hcase⟩
    · rw [hfail]
      exact Or.inl ⟨hmany, rfl⟩
    · rw [hok]
      simp only [bind, Except.bind, nodeAt_occ hocc]
      rcases hcase with ⟨rfl, hlookup, hrefines⟩ | ⟨rfl, rfl, hlookup, hrefines⟩ <;> rw [hlookup]
      · obtain ⟨t', ht', hrefines', -, hmask⟩ := hrefines.assign hocc (f v')
        rw [ht']
        exact Or.inr ⟨t', rfl, hrefines', by unfold Grown at hgrown ⊢; rwa [hmask]⟩
      · obtain ⟨t', ht', hrefines', -, hmask⟩ := hrefines.assign hocc (f default)
        rw [ht']
        rw [AList.insert_insert] at hrefines'
        exact Or.inr ⟨t', rfl, hrefines', by unfold Grown at hgrown ⊢; rwa [hmask]⟩
  | find k =>
    unfold Table.call Map.call
    dsimp only
    rw [h.atKey_spec k]
    exact Or.inr ⟨t, rfl, h, hsame rfl⟩
  | count k =>
    unfold Table.call Map.call
    dsimp only
    rw [h.count_spec k]
    exact Or.inr ⟨t, rfl, h, hsame rfl⟩
  | size =>
    refine Or.inr ⟨t, ?_, h, hsame rfl⟩
    show Except.ok (t, Answer.number t.numElements) = .ok (t, .number m.entries.length)
    rw [h.numElements]
  | eraseKey k =>
    obtain ⟨t', hok, hmask, hrefines⟩ := h.eraseKey_spec k
    unfold Table.call Map.call
    dsimp only
    rw [hok]
    exact Or.inr ⟨t', rfl, hrefines, hsame hmask⟩
  | eraseIf p =>
    obtain ⟨t', hok, hinv, hmask, hmem⟩ := h.inv.sweep_spec (fun seen e => (p e, seen ++ [e])) []
    have hswept : ∀ (es seen : List (K × V)), swept (fun seen e => (p e, seen ++ [e])) seen es =
        (es.filter p, seen ++ es) := by
      intro es
      induction es with
      | nil => simp [swept]
      | cons e es ih =>
        intro seen
        simp only [swept, ih, List.filter_cons, List.append_assoc, List.singleton_append]
    rw [hswept, List.nil_append] at hok
    unfold Table.call Map.call
    dsimp only
    rw [hok]
    refine Or.inr ⟨t', ?_, ⟨hinv, fun e => ?_⟩, hsame hmask⟩
    · show Except.ok (t', Answer.entries (t.entries : Multiset (K × V))) = _
      rw [Multiset.coe_eq_coe.mpr h.entries_perm]
    · rw [hmem, hswept, h.mem, Map.lookup_without, List.mem_filter, mem_entries, h.mem]
      refine and_congr_right fun he => ?_
      rw [Bool.eq_false_iff]
      exact not_congr (and_iff_right he)
  | forEach =>
    have hseen := h.inv.forEach_spec (fun seen e => seen ++ [e]) []
    have hfold : ∀ es seen : List (K × V), es.foldl (fun seen e => seen ++ [e]) seen = seen ++ es := by
      intro es
      induction es with
      | nil => simp
      | cons e es ih => simp [ih]
    rw [hfold, List.nil_append] at hseen
    unfold Table.call Map.call
    dsimp only
    rw [hseen]
    refine Or.inr ⟨t, ?_, h, hsame rfl⟩
    show Except.ok (t, Answer.entries (t.entries : Multiset (K × V))) = _
    rw [Multiset.coe_eq_coe.mpr h.entries_perm]
  | clear =>
    obtain ⟨t', hok, hinv, hmask, hmem⟩ := clear_spec h.inv
    unfold Table.call Map.call
    dsimp only
    rw [hok]
    refine Or.inr ⟨t', rfl, ⟨hinv, fun e => ?_⟩, hsame hmask⟩
    rw [AList.lookup_empty]
    exact iff_of_false (hmem e) (by simp)

/-! ### Runs -/

/-- The greatest number of entries that the map ever has. -/
def Map.peak : List (Call K V) → Map K V → Nat
  | [], m => m.entries.length
  | c :: cs, m => max m.entries.length (Map.peak cs (m.call c).1)

theorem run_spec : ∀ (calls : List (Call K V)) {t : Table K V} {m : Map K V}, Refines hash t m →
    (∃ t', t.run hash calls = .ok (t', (m.run calls).2) ∧ Refines hash t' (m.run calls).1 ∧
        t'.mask + 1 ≤ max (t.mask + 1) (6 * m.peak calls + 8)) ∨
      t.run hash calls = .error .overflow ∧ 127 ≤ m.peak calls := by
  intro calls
  induction calls with
  | nil => exact fun h => Or.inl ⟨_, rfl, h, le_max_left _ _⟩
  | cons c calls ih =>
    intro t m h
    have hnum := h.numElements
    have hpeak : m.peak (c :: calls) = max m.entries.length ((m.call c).1.peak calls) := rfl
    rw [Table.run]
    rcases call_spec h c with ⟨hmany, hfail⟩ | ⟨t₁, ht₁, h₁, hgrown⟩
    · rw [hfail]
      exact Or.inr ⟨rfl, by omega⟩
    · rw [ht₁]
      simp only [bind, Except.bind]
      rcases ih h₁ with ⟨t', ht', h', hsize⟩ | ⟨hfail, hmany⟩
      · rw [ht']
        unfold Grown at hgrown
        exact Or.inl ⟨t', rfl, h', by omega⟩
      · rw [hfail]
        exact Or.inr ⟨rfl, by omega⟩

/-- Whatever the hash function, a table that starts empty answers any calls as a finite map does. Some
call may throw once there are 127 entries; none fails in any other way. -/
theorem table_refines_map (hash : K → BitVec 64) (calls : List (Call K V)) :
    (∃ t, ({} : Table K V).run hash calls = .ok (t, (Map.run calls ∅).2) ∧
        t.entries.Perm (Map.run calls ∅).1.pairs) ∨
      ({} : Table K V).run hash calls = .error .overflow ∧ 127 ≤ Map.peak calls (∅ : Map K V) := by
  rcases run_spec calls (refines_empty hash) with ⟨t, ht, h, -⟩ | hfail
  · exact Or.inl ⟨t, ht, h.entries_perm⟩
  · exact Or.inr hfail

/-- The array stays in proportion to the most entries there ever were, and a lookup is done after 64
rounds of its loop. -/
theorem table_stays_small {calls : List (Call K V)} {t : Table K V} {answers : List (Answer K V)}
    (h : ({} : Table K V).run hash calls = .ok (t, answers)) :
    t.mask + 1 ≤ 6 * Map.peak calls (∅ : Map K V) + 8 ∧
      ∀ key, t.findLoop key 64 (t.keyToIdx hash key).2 (t.keyToIdx hash key).1 =
        t.findLoop key t.fuel (t.keyToIdx hash key).2 (t.keyToIdx hash key).1 := by
  rcases run_spec calls (refines_empty hash) with ⟨t', ht', h', hsize⟩ | ⟨hfail, -⟩
  · cases h.symm.trans ht'
    refine ⟨?_, h'.inv.findLoop_short⟩
    have hzero : ({} : Table K V).mask = 0 := rfl
    rw [hzero] at hsize
    omega
  · cases h.symm.trans hfail

theorem table_stays_small_four : ∃ t answers,
    ({} : Table Nat Nat).run (BitVec.ofNat 64) [.emplace 1 5, .modify 2 (· + 1), .eraseKey 1,
      .eraseIf fun e => e.2 == 1] = .ok (t, answers) ∧ t.mask + 1 ≤ 20 := by
  rcases run_spec [.emplace 1 5, .modify 2 (· + 1), .eraseKey 1, .eraseIf fun e => e.2 == 1]
    (refines_empty (V := Nat) (BitVec.ofNat 64 : Nat → BitVec 64)) with ⟨t, ht, -⟩ | ⟨-, hmany⟩
  · exact ⟨t, _, ht, (table_stays_small ht).1⟩
  · exact absurd hmany (by decide)

end CosmicArchitect.RobinHood
