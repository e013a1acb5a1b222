import CosmicArchitect.RobinHood.Map
import CosmicArchitect.Util.CleanupSweep

/-!
# The entries of a factory in their hash table (Util/PolyFactory.h)

The nodes of `m_entries` never move and are kept in `entries`; which ids there are, and in which order
a loop meets them, says the table of the ids. The calls are those of `refMachine`, with what they ask
of the table; `Cleanup` erases from the table while it iterates over it.
-/

namespace CosmicArchitect.Util.PolyFactory
open PolyType RefState RobinHood

variable {N : Nat} {PolyID D CB : Type} [DecidableEq PolyID] {T : ComponentTypes D}
  {f f' : RefFactory N PolyID D CB} {s s' : RefState N PolyID D CB} {id : PolyID}
  {hash : PolyID → BitVec 64}

/-- The part of `GetPoly` for an entry that `try_emplace` made (lines 263-273). -/
def createPoly (C : Components PolyID (Component PolyID D)) (fresh : Fresh)
    (f : RefFactory N PolyID D CB) (id : PolyID) (initialTypes : TypeID N) :
    Option (RefFactory N PolyID D CB) := do
  let typeId := initialTypes ||| headerID N
  let (f, poly) ← allocatePoly C fresh f typeId
  let header ← f.header poly
  let archetype ← f.archetypeEntry header.archetype
  some { f with
    header := Function.update f.header poly
      (some { header with components := constructPoly C.info archetype.archetype })
    entries := f.entries.insert id
      { typeId := typeId, archetype := header.archetype, header := poly, refcount := 1 } }

/-- The loop body of `Cleanup`: whether the entry goes, and the factory after it. -/
def cleanupBody (T : ComponentTypes D) (f : Option (RefFactory N PolyID D CB)) (e : PolyID × Unit) :
    Bool × Option (RefFactory N PolyID D CB) :=
  match f with
  | none => (false, none)
  | some f =>
    ((f.entries.lookup e.1).any fun entry => entry.refcount = 0,
      cleanupEntryWith (destructChecked T.components) f e.1)

inductive TableFault
  | table (failure : Failure)
  | factory
deriving DecidableEq

/-- The table of ids, and the factory with its references. -/
abbrev TableState (N : Nat) (PolyID D CB : Type) [DecidableEq PolyID] :=
  Table PolyID Unit × RefState N PolyID D CB

def liftTable {α : Type} : Except Failure α → Except TableFault α
  | .ok a => .ok a
  | .error failure => .error (.table failure)

def liftFactory {α : Type} : Option α → Except TableFault α
  | some a => .ok a
  | none => .error .factory

inductive TableLabel (N : Nat) (PolyID CB : Type)
  | cleanup
  | call (l : RefState.Label N PolyID CB)

/-- What `SetTypes` and `AddTypes` share: nothing happens when the id is not in the table. -/
def retypeFound (hash : PolyID → BitVec 64) (T : ComponentTypes D) (t : Table PolyID Unit)
    (s : RefState N PolyID D CB) (id : PolyID) (newTypeId : PolyEntry N → TypeID N) (fresh : Fresh) :
    Except TableFault (TableState N PolyID D CB) := do
  let idx ← liftTable (t.find hash id)
  if idx = t.endIdx then .ok (t, s)
  else
    let f ← liftFactory ((s.factory.entries.lookup id).bind fun entry =>
      retypeWith T.components (destructChecked T.components) fresh s.factory id entry
        (newTypeId entry))
    .ok (t, { s with factory := f })

/-- The calls with what they ask of the table. -/
def tableCall (hash : PolyID → BitVec 64) (T : ComponentTypes D) (t : Table PolyID Unit)
    (s : RefState N PolyID D CB) :
    TableLabel N PolyID CB → Except TableFault (TableState N PolyID D CB)
  | .cleanup => do
    let (t, f) ← liftTable (t.sweep (cleanupBody T) (some s.factory))
    let f ← liftFactory f
    .ok (t, { s with factory := f })
  | .call (.getPoly dst id initialTypes fresh) => do
    let (t, _, created) ← liftTable (t.tryEmplace hash id ())
    let f ← liftFactory (if created then createPoly T.components fresh s.factory id initialTypes
      else some (count (· + 1) s.factory id))
    let s ← liftFactory (pushBack { s with factory := f } dst (some id))
    .ok (t, s)
  | .call (.setTypes id newTypeId fresh) =>
    retypeFound hash T t s id (fun _ => newTypeId ||| headerID N) fresh
  | .call (.addTypes id newTypes fresh) =>
    retypeFound hash T t s id (fun entry => entry.typeId ||| newTypes) fresh
  | .call l => do
    let s ← liftFactory (call T s l)
    .ok (t, s)

/-- `Cleanup` with an order of its own. -/
def isOrdered : RefState.Label N PolyID CB → Bool
  | .cleanup _ => true
  | _ => false

def TablePossible (s : RefState N PolyID D CB) : TableLabel N PolyID CB → Prop
  | .cleanup => True
  | .call l => isOrdered l = false ∧ Possible s l

instance (s : RefState N PolyID D CB) (l : TableLabel N PolyID CB) : Decidable (TablePossible s l) :=
  match l with
  | .cleanup => isTrue trivial
  | .call _ => inferInstanceAs (Decidable (_ ∧ _))

/-- All runs of a factory over the table. -/
def tableMachine (hash : PolyID → BitVec 64) (T : ComponentTypes D) :
    Library.Machine (Except TableFault (TableState N PolyID D CB)) (TableLabel N PolyID CB) where
  init o := o = .ok ({}, {})
  step o l := match o with
    | .ok (t, s) => if TablePossible s l then some (tableCall hash T t s l) else none
    | .error _ => none

/-! ### Which ids there are -/

def SameKeys (f f' : RefFactory N PolyID D CB) : Prop :=
  ∀ k, (f'.entries.lookup k).isSome = (f.entries.lookup k).isSome

theorem SameKeys.of_entries (h : f'.entries = f.entries) : SameKeys f f' := fun k => by rw [h]

theorem SameKeys.trans {f'' : RefFactory N PolyID D CB} (h : SameKeys f f') (h' : SameKeys f' f'') :
    SameKeys f f'' := fun k => (h' k).trans (h k)

theorem SameKeys.insert (h : (f.entries.lookup id).isSome) (entry : PolyEntry N) (k : PolyID) :
    ((f.entries.insert id entry).lookup k).isSome = (f.entries.lookup k).isSome := by
  by_cases hk : k = id
  · rw [hk, AList.lookup_insert, h]
    rfl
  · rw [AList.lookup_insert_ne hk]

theorem count_keys (change : Nat → Nat) (f : RefFactory N PolyID D CB) (id : PolyID) :
    SameKeys f (count change f id) := by
  unfold count
  cases he : f.entries.lookup id with
  | none => exact fun k => rfl
  | some entry => exact fun k => SameKeys.insert (by rw [he]; rfl) _ k

theorem fetchSub_keys (h : fetchSub f id = some f') : SameKeys f f' := by
  obtain ⟨entry, -, h⟩ := Option.bind_eq_some_iff.mp h
  split at h
  · cases h
    exact count_keys _ f id
  · cases h

theorem releaseAll_keys : ∀ {ids : List PolyID} {f : RefFactory N PolyID D CB},
    releaseAll f ids = some f' → SameKeys f f'
  | [], f, h => by
    cases h
    exact fun k => rfl
  | id :: ids, f, h => by
    obtain ⟨f₁, h₁, h⟩ := Option.bind_eq_some_iff.mp h
    exact (fetchSub_keys h₁).trans (releaseAll_keys h)

theorem destructChecked_keys {values : List (Component PolyID D)}
    (h : destructChecked T.components f values = some f') : SameKeys f f' := releaseAll_keys h

theorem allocatePoly_entries {C : Components PolyID (Component PolyID D)} {fresh : Fresh}
    {typeId : TypeID N} {r : RefFactory N PolyID D CB × Nat}
    (h : allocatePoly C fresh f typeId = some r) : r.1.entries = f.entries := by
  have hemplace : (emplaceArchetype C fresh.archetype f typeId).1.entries = f.entries := by
    unfold emplaceArchetype
    split <;> rfl
  obtain ⟨entry, -, rfl⟩ := Option.map_eq_some_iff.mp h
  exact hemplace

theorem deallocatePoly_entries {typeId : TypeID N} {poly : Nat}
    (h : deallocatePoly f typeId poly = some f') : f'.entries = f.entries := by
  obtain ⟨a, -, h⟩ := Option.bind_eq_some_iff.mp h
  obtain ⟨entry, -, rfl⟩ := Option.map_eq_some_iff.mp h
  dsimp only
  split <;> rfl

theorem retypeWith_keys {fresh : Fresh} {entry : PolyEntry N} {newTypeId : TypeID N}
    (h : retypeWith T.components (destructChecked T.components) fresh f id entry newTypeId = some f') :
    SameKeys f f' := by
  obtain ⟨⟨f₁, newPoly⟩, h₁, h⟩ := Option.bind_eq_some_iff.mp h
  obtain ⟨header, -, h⟩ := Option.bind_eq_some_iff.mp h
  obtain ⟨entry', he', h⟩ := Option.bind_eq_some_iff.mp h
  have hupdate : SameKeys f f₁ := by
    unfold updatePolyTypeWith at h₁
    split at h₁
    · cases h₁
      exact fun k => rfl
    · obtain ⟨⟨f₂, newPoly'⟩, h₂, h₁⟩ := Option.bind_eq_some_iff.mp h₁
      obtain ⟨_, -, h₁⟩ := Option.bind_eq_some_iff.mp h₁
      obtain ⟨_, -, h₁⟩ := Option.bind_eq_some_iff.mp h₁
      obtain ⟨_, -, h₁⟩ := Option.bind_eq_some_iff.mp h₁
      obtain ⟨_, -, h₁⟩ := Option.bind_eq_some_iff.mp h₁
      obtain ⟨f₃, h₃, h₁⟩ := Option.bind_eq_some_iff.mp h₁
      obtain ⟨f₄, h₄, h₁⟩ := Option.bind_eq_some_iff.mp h₁
      cases h₁
      have hdestruct : SameKeys f₂ f₃ := fun k => destructChecked_keys h₃ k
      exact ((SameKeys.of_entries (allocatePoly_entries h₂)).trans hdestruct).trans
        (.of_entries (deallocatePoly_entries h₄))
  cases h
  exact hupdate.trans fun k => SameKeys.insert (by rw [he']; rfl) _ k

theorem cleanupEntryWith_keys (h : cleanupEntryWith (destructChecked T.components) f id = some f') :
    ∀ k, k ∈ f'.entries ↔ k ∈ f.entries ∧ ((cleanupBody T (some f) (id, ())).1 = true → k ≠ id) := by
  intro k
  have hbody : (cleanupBody T (some f) (id, ())).1 =
      (f.entries.lookup id).any fun entry => entry.refcount = 0 := rfl
  rw [hbody]
  unfold cleanupEntryWith at h
  cases he : f.entries.lookup id with
  | none =>
    rw [he] at h
    cases h
    simp
  | some entry =>
    rw [he] at h
    dsimp only at h
    split at h
    · next hzero =>
      obtain ⟨header, -, h⟩ := Option.bind_eq_some_iff.mp h
      obtain ⟨archetype, -, h⟩ := Option.bind_eq_some_iff.mp h
      obtain ⟨f₁, h₁, h⟩ := Option.bind_eq_some_iff.mp h
      obtain ⟨f₂, h₂, h⟩ := Option.bind_eq_some_iff.mp h
      cases h
      have hkeys := (destructChecked_keys h₁).trans (.of_entries (deallocatePoly_entries h₂)) k
      simp only [AList.mem_erase, hzero, Option.any_some, decide_true, true_implies]
      rw [← AList.lookup_isSome, hkeys, AList.lookup_isSome]
      exact and_comm
    · next hzero =>
      cases h
      simp [hzero]

/-- The loop of `Cleanup` visits the entries in the order of the table. -/
theorem swept_cleanup : ∀ (es : List (PolyID × Unit)) (f : RefFactory N PolyID D CB),
    (Table.swept (cleanupBody T) (some f) es).2 =
      cleanupWith (destructChecked T.components) f (es.map Prod.fst) := by
  have hnone : ∀ es : List (PolyID × Unit),
      (Table.swept (cleanupBody T) (none : Option (RefFactory N PolyID D CB)) es).2 = none := by
    intro es
    induction es with
    | nil => rfl
    | cons e es ih => exact ih
  intro es
  induction es with
  | nil => exact fun f => rfl
  | cons e es ih =>
    intro f
    rw [List.map_cons, cleanupWith, Table.swept]
    show (Table.swept (cleanupBody T) (cleanupEntryWith (destructChecked T.components) f e.1) es).2 = _
    cases cleanupEntryWith (destructChecked T.components) f e.1 with
    | none => exact hnone es
    | some f₁ => exact ih f₁

/-- What the loop erases from the table is what it erases from the entries. -/
theorem swept_keys : ∀ (es : List (PolyID × Unit)) (f : RefFactory N PolyID D CB),
    cleanupWith (destructChecked T.components) f (es.map Prod.fst) = some f' →
    ∀ k, k ∈ f'.entries ↔
      k ∈ f.entries ∧ (k, ()) ∉ (Table.swept (cleanupBody T) (some f) es).1 := by
  intro es
  induction es with
  | nil =>
    intro f h k
    cases h
    simp [Table.swept]
  | cons e es ih =>
    intro f h k
    obtain ⟨f₁, h₁, h⟩ := Option.bind_eq_some_iff.mp h
    rw [ih f₁ h k, cleanupEntryWith_keys h₁, Table.swept]
    have hnext : (cleanupBody T (some f) e).2 = some f₁ := h₁
    rw [hnext]
    dsimp only
    by_cases hgone : (cleanupBody T (some f) e).1 = true
    · rw [if_pos hgone, List.mem_cons, not_or]
      have hne : ¬ (k, ()) = e ↔ k ≠ e.1 := by
        rw [Prod.ext_iff]
        simp
      rw [hne]
      exact ⟨fun hkept => ⟨hkept.1.1, hkept.1.2 hgone, hkept.2⟩,
        fun hkept => ⟨⟨hkept.1, fun _ => hkept.2.1⟩, hkept.2.2⟩⟩
    · rw [if_neg hgone]
      exact and_congr_left fun _ => and_iff_left fun hc => absurd hc hgone

/-! ### Calls that leave the ids -/

theorem release_keys {ref : Option PolyID} (h : s.release ref = some s') :
    SameKeys s.factory s'.factory := by
  cases ref with
  | none =>
    cases h
    exact fun k => rfl
  | some id =>
    obtain ⟨f, hf, rfl⟩ := Option.map_eq_some_iff.mp h
    exact fetchSub_keys hf

theorem retain_keys {ref : Option PolyID} (h : s.retain ref = some s') :
    SameKeys s.factory s'.factory := by
  cases ref with
  | none =>
    cases h
    exact fun k => rfl
  | some id =>
    obtain ⟨f, hf, rfl⟩ := Option.map_eq_some_iff.mp h
    obtain ⟨entry, -, rfl⟩ := Option.map_eq_some_iff.mp hf
    exact count_keys _ _ _

theorem putRefs_keys (s : RefState N PolyID D CB) (refs : List (Option PolyID)) (d : Holder PolyID) :
    SameKeys s.factory (s.putRefs refs d).factory := by
  cases d with
  | vector v => exact fun k => rfl
  | component id i =>
    unfold putRefs
    dsimp only
    split <;> exact fun k => rfl

theorem write_keys {p : Place PolyID} {ref : Option PolyID} (h : s.write p ref = some s') :
    SameKeys s.factory s'.factory := by
  obtain ⟨refs, -, rfl⟩ := Option.map_eq_some_iff.mp h
  exact putRefs_keys s _ _

theorem pushBack_keys {d : Holder PolyID} {ref : Option PolyID} (h : s.pushBack d ref = some s') :
    SameKeys s.factory s'.factory := by
  obtain ⟨refs, -, rfl⟩ := Option.map_eq_some_iff.mp h
  exact putRefs_keys s _ _

theorem moveAssign_keys {p q : Place PolyID} (h : s.moveAssign p q = some s') :
    SameKeys s.factory s'.factory := by
  obtain ⟨old, -, h⟩ := Option.bind_eq_some_iff.mp h
  obtain ⟨s₁, h₁, h⟩ := Option.bind_eq_some_iff.mp h
  obtain ⟨ref, -, h⟩ := Option.bind_eq_some_iff.mp h
  obtain ⟨s₂, h₂, h⟩ := Option.bind_eq_some_iff.mp h
  exact ((release_keys h₁).trans (write_keys h₂)).trans (write_keys h)

theorem popBack_keys {d : Holder PolyID} (h : s.popBack d = some s') :
    SameKeys s.factory s'.factory := by
  obtain ⟨refs, -, h⟩ := Option.bind_eq_some_iff.mp h
  obtain ⟨ref, -, h⟩ := Option.bind_eq_some_iff.mp h
  obtain ⟨s₁, h₁, h⟩ := Option.bind_eq_some_iff.mp h
  cases h
  exact (release_keys h₁).trans (putRefs_keys s₁ _ _)

/-- The calls that do not ask the table for an id. -/
def asksNot : RefState.Label N PolyID CB → Bool
  | .getPoly .. | .setTypes .. | .addTypes .. | .cleanup _ => false
  | _ => true

theorem call_keys {l : RefState.Label N PolyID CB} (hl : asksNot l = true)
    (h : call T s l = some s') : SameKeys s.factory s'.factory := by
  cases l with
  | newVector =>
    cases h
    exact fun k => rfl
  | construct dst ref =>
    obtain ⟨s₁, h₁, h⟩ := Option.bind_eq_some_iff.mp h
    exact (retain_keys h₁).trans (pushBack_keys h)
  | moveConstruct dst src =>
    obtain ⟨ref, -, h⟩ := Option.bind_eq_some_iff.mp h
    obtain ⟨s₁, h₁, h⟩ := Option.bind_eq_some_iff.mp h
    exact (write_keys h₁).trans (pushBack_keys h)
  | moveAssign dst src => exact moveAssign_keys h
  | reference dst src =>
    obtain ⟨ref, -, h⟩ := Option.bind_eq_some_iff.mp h
    obtain ⟨s₁, h₁, h⟩ := Option.bind_eq_some_iff.mp h
    exact (retain_keys h₁).trans (pushBack_keys h)
  | popBack src => exact popBack_keys h
  | unorderedEraseIt src it =>
    obtain ⟨refs, -, h⟩ := Option.bind_eq_some_iff.mp h
    obtain ⟨s₁, h₁, h⟩ := Option.bind_eq_some_iff.mp h
    exact (moveAssign_keys h₁).trans (popBack_keys h)
  | getPoly => cases hl
  | setTypes => cases hl
  | addTypes => cases hl
  | cleanup => cases hl
  | addCallback types event callback =>
    cases h
    exact fun k => rfl

/-! ### The simulation -/

/-- The table holds the ids of the entries. -/
structure Tabled (hash : PolyID → BitVec 64) (t : Table PolyID Unit) (s : RefState N PolyID D CB) :
    Prop where
  inv : t.Inv hash
  keys : ∀ k, t.Mem (k, ()) ↔ k ∈ s.factory.entries

namespace Tabled
variable {t : Table PolyID Unit} (h : Tabled hash t s)
include h

theorem sameKeys {t' : Table PolyID Unit} (hinv : t'.Inv hash) (hmem : ∀ e, t'.Mem e ↔ t.Mem e)
    (hs : SameKeys s.factory s'.factory) : Tabled hash t' s' := by
  refine ⟨hinv, fun k => ?_⟩
  rw [hmem, h.keys, ← AList.lookup_isSome, ← AList.lookup_isSome, hs]

theorem entries_perm : (t.entries.map Prod.fst).Perm s.factory.entries.keys := by
  refine (List.perm_ext_iff_of_nodup h.inv.entries_keys_nodup s.factory.entries.keys_nodup).mpr
    fun k => ?_
  rw [← AList.mem_keys, ← h.keys, ← Table.mem_entries, List.mem_map]
  constructor
  · rintro ⟨e, he, rfl⟩
    exact he
  · exact fun hk => ⟨_, hk, rfl⟩

theorem numElements : t.numElements = getCount s.factory := by
  rw [← h.inv.length_entries, ← List.length_map (f := Prod.fst), h.entries_perm.length_eq]
  exact List.length_map ..

theorem lookup_of_occ {idx : Nat} {u : Unit} (hocc : t.occ idx = some (id, u)) :
    ∃ entry, s.factory.entries.lookup id = some entry := by
  have hmem := (h.keys id).mp ⟨idx, hocc⟩
  exact Option.isSome_iff_exists.mp (AList.lookup_isSome.mpr hmem)

theorem lookup_of_absent (habsent : t.Absent id) : s.factory.entries.lookup id = none := by
  rw [AList.lookup_eq_none, ← h.keys]
  rintro ⟨i, hi⟩
  exact habsent i _ hi rfl

/-- What the calls do that look for an id. -/
theorem find_spec (id : PolyID) : ∃ idx, t.find hash id = .ok idx ∧
    (idx = t.endIdx ∧ s.factory.entries.lookup id = none ∨
      idx ≠ t.endIdx ∧ ∃ entry, s.factory.entries.lookup id = some entry) := by
  obtain ⟨r, hfound, hr⟩ := h.inv.findIdx_spec id
  refine ⟨_, hr, ?_⟩
  cases r with
  | none => exact Or.inl ⟨rfl, h.lookup_of_absent hfound⟩
  | some idx =>
    obtain ⟨u, hu⟩ := hfound
    have := Table.lt_of_occ hu
    refine Or.inr ⟨?_, h.lookup_of_occ hu⟩
    rw [Option.getD_some, h.inv.endIdx_eq]
    omega

/-- `SetTypes` and `AddTypes` change no id. -/
theorem retypeFound (id : PolyID) (newTypeId : PolyEntry N → TypeID N) (fresh : Fresh)
    (hs : (match s.factory.entries.lookup id with
      | none => some s.factory
      | some entry => retypeWith T.components (destructChecked T.components) fresh s.factory id entry
          (newTypeId entry)) = some f) :
    retypeFound hash T t s id newTypeId fresh = .ok (t, { s with factory := f }) ∧
      Tabled hash t { s with factory := f } := by
  obtain ⟨idx, hidx, hcase⟩ := h.find_spec id
  unfold PolyFactory.retypeFound
  rw [hidx]
  rcases hcase with ⟨hend, hnone⟩ | ⟨hend, entry, hentry⟩
  · rw [hnone] at hs
    cases hs
    exact ⟨if_pos hend, h⟩
  · rw [hentry] at hs
    dsimp only at hs
    refine ⟨(if_neg hend).trans ?_, h.sameKeys h.inv (fun _ => Iff.rfl) (retypeWith_keys hs)⟩
    rw [hentry, Option.bind_some, hs]
    rfl

theorem getPoly (dst : Holder PolyID) (initialTypes : TypeID N) (fresh : Fresh)
    (hs : getPolyRef T s dst id initialTypes fresh = some s') :
    127 ≤ t.numElements ∧
        tableCall hash T t s (.call (.getPoly dst id initialTypes fresh)) = .error (.table .overflow) ∨
      ∃ t', tableCall hash T t s (.call (.getPoly dst id initialTypes fresh)) = .ok (t', s') ∧
        Tabled hash t' s' := by
  obtain ⟨f, hf, hpush⟩ := Option.bind_eq_some_iff.mp hs
  have hkeys := pushBack_keys hpush
  have hcall : tableCall hash T t s (.call (.getPoly dst id initialTypes fresh)) =
      liftTable (t.emplaceWith hash id () fun t _ => .ok t) >>= fun r =>
        liftFactory (if r.2.2 then createPoly T.components fresh s.factory id initialTypes
          else some (count (· + 1) s.factory id)) >>= fun f =>
            liftFactory (pushBack { s with factory := f } dst (some id)) >>= fun s => .ok (r.1, s) := rfl
  rw [hcall]
  rcases Table.emplaceWith_spec h.inv id () fun t _ => .ok t with
    ⟨hmany, hfail⟩ | ⟨t₁, idx, hsame, ⟨u, hu⟩, hok⟩ | ⟨t', idx, hok, hput⟩
  · rw [hfail]
    exact Or.inl ⟨hmany, rfl⟩
  · have h₁ : Tabled hash t₁ s := ⟨hsame.inv, fun k => by rw [hsame.mem, h.keys]⟩
    obtain ⟨entry, hentry⟩ := h₁.lookup_of_occ hu
    have hcount : f = count (· + 1) s.factory id := by
      unfold PolyFactory.getPoly at hf
      rw [hentry] at hf
      exact (Option.some.inj hf).symm
    refine Or.inr ⟨t₁, ?_, h₁.sameKeys hsame.inv (fun _ => Iff.rfl) (SameKeys.trans ?_ hkeys)⟩
    · rw [hok]
      show (liftFactory (pushBack { s with factory := count (· + 1) s.factory id } dst (some id)) >>=
        fun s => Except.ok (t₁, s)) = _
      rw [← hcount, hpush]
      rfl
    · rw [hcount]
      exact count_keys _ _ _
  · have hnone := h.lookup_of_absent hput.absent
    have hcreate : createPoly T.components fresh s.factory id initialTypes = some f := by
      unfold PolyFactory.getPoly at hf
      rw [hnone] at hf
      exact hf
    refine Or.inr ⟨t', ?_, hput.inv, fun k => ?_⟩
    · rw [hok]
      show (liftFactory (createPoly T.components fresh s.factory id initialTypes) >>= fun f =>
        liftFactory (pushBack { s with factory := f } dst (some id)) >>=
          fun s => Except.ok (t', s)) = _
      rw [hcreate]
      show (liftFactory (pushBack { s with factory := f } dst (some id)) >>=
        fun s => Except.ok (t', s)) = _
      rw [hpush]
      rfl
    · obtain ⟨⟨f₁, poly⟩, halloc, hcreate⟩ := Option.bind_eq_some_iff.mp hcreate
      obtain ⟨header, -, hcreate⟩ := Option.bind_eq_some_iff.mp hcreate
      obtain ⟨archetype, -, hcreate⟩ := Option.bind_eq_some_iff.mp hcreate
      have hentries : f₁.entries = s.factory.entries := allocatePoly_entries halloc
      rw [hput.mem, h.keys, ← AList.lookup_isSome (s := s'.factory.entries), hkeys k,
        AList.lookup_isSome]
      cases hcreate
      show _ ↔ k ∈ f₁.entries.insert id _
      rw [AList.mem_insert, hentries, Prod.ext_iff]
      simp

/-- A call over the table is a call over the entries, or `try_emplace` throws. -/
theorem call (hs : Settled T s) {l : TableLabel N PolyID CB} (hl : TablePossible s l) :
    127 ≤ getCount s.factory ∧ tableCall hash T t s l = .error (.table .overflow) ∨
      ∃ t' s' l', tableCall hash T t s l = .ok (t', s') ∧ Tabled hash t' s' ∧ Possible s l' ∧
        RefState.call T s l' = some s' := by
  cases l with
  | cleanup =>
    right
    obtain ⟨s', hs', -⟩ := hs.call (l := .cleanup (t.entries.map Prod.fst)) h.entries_perm
    obtain ⟨f, hf, rfl⟩ := Option.map_eq_some_iff.mp hs'
    obtain ⟨t', ht', hinv, -, hmem⟩ := h.inv.sweep_spec (cleanupBody T) (some s.factory)
    rw [swept_cleanup, hf] at ht'
    refine ⟨t', _, .cleanup (t.entries.map Prod.fst), ?_, ⟨hinv, fun k => ?_⟩, h.entries_perm, hs'⟩
    · unfold tableCall
      rw [ht']
      rfl
    · rw [hmem, h.keys]
      exact (swept_keys _ _ hf k).symm
  | call l =>
    obtain ⟨hordered, hpossible⟩ := hl
    obtain ⟨s', hs', -⟩ := hs.call hpossible
    by_cases hasks : asksNot l = true
    · have hcall : tableCall hash T t s (.call l) =
          liftFactory (RefState.call T s l) >>= fun s => .ok (t, s) := by
        cases l <;> first | rfl | cases hasks
      refine Or.inr ⟨t, s', l, ?_, h.sameKeys h.inv (fun _ => Iff.rfl) (call_keys hasks hs'),
        hpossible, hs'⟩
      rw [hcall, hs']
      rfl
    cases l with
    | cleanup order => cases hordered
    | getPoly dst id initialTypes fresh =>
      rw [← h.numElements]
      refine (h.getPoly dst initialTypes fresh hs').imp_right ?_
      rintro ⟨t', hok, h'⟩
      exact ⟨t', s', _, hok, h', hpossible, hs'⟩
    | setTypes id newTypeId fresh =>
      obtain ⟨f, hf, rfl⟩ := Option.map_eq_some_iff.mp hs'
      obtain ⟨hok, h'⟩ := h.retypeFound id _ fresh hf
      exact Or.inr ⟨t, _, _, hok, h', hpossible, hs'⟩
    | addTypes id newTypes fresh =>
      obtain ⟨f, hf, rfl⟩ := Option.map_eq_some_iff.mp hs'
      obtain ⟨hok, h'⟩ := h.retypeFound id _ fresh hf
      exact Or.inr ⟨t, _, _, hok, h', hpossible, hs'⟩
    | _ => exact absurd rfl hasks

end Tabled

/-! ### Runs -/

theorem tabled_of_reach {o : Except TableFault (TableState N PolyID D CB)}
    (ho : (tableMachine hash T).Reachable o) :
    (∃ t s, o = .ok (t, s) ∧ Tabled hash t s ∧ (refMachine T).Reachable (some s)) ∨
      o = .error (.table .overflow) := by
  refine ho.invariant (I := fun o => (∃ t s, o = .ok (t, s) ∧ Tabled hash t s ∧
    (refMachine T).Reachable (some s)) ∨ o = .error (.table .overflow)) ?_ ?_
  · intro o hinit
    have hempty := refines_empty (V := Unit) hash
    refine Or.inl ⟨{}, {}, hinit, ⟨hempty.inv, fun k => ?_⟩, .init rfl⟩
    rw [hempty.mem]
    exact iff_of_false (fun hc => by cases hc) (fun hc => by cases hc)
  · intro o l o' _ hinv _ hstep
    rcases hinv with ⟨t, s, rfl, htabled, hreach⟩ | rfl
    · obtain ⟨hl, heq⟩ := Option.ite_none_right_eq_some.mp hstep
      obtain ⟨s₀, hs₀, hsettled⟩ := settled_of_reach hreach
      cases hs₀
      rw [← Option.some.inj heq]
      rcases htabled.call hsettled hl with ⟨-, hfail⟩ | ⟨t', s', l', hok, htabled', hl', hs'⟩
      · exact Or.inr hfail
      · refine Or.inl ⟨t', s', hok, htabled', hreach.step trivial (l := l') ?_⟩
        show (if Possible s l' then some (RefState.call T s l') else none) = some (some s')
        rw [if_pos hl', hs']
    · cases hstep

/-- The factory over its hash table does nothing that the factory over a map does not, and the table
holds exactly the ids of the entries, whatever the hash. A call may throw once there are 127 entries;
none fails in any other way. -/
theorem entry_table_refines (hash : PolyID → BitVec 64) (T : ComponentTypes D)
    {o : Except TableFault (TableState N PolyID D CB)} (ho : (tableMachine hash T).Reachable o) :
    (∃ t s, o = .ok (t, s) ∧ (refMachine T).Reachable (some s) ∧
        (t.entries.map Prod.fst).Perm s.factory.entries.keys ∧
        ∀ l o', (tableMachine hash T).step o l = some o' →
          (∃ t' s', o' = .ok (t', s')) ∨ 127 ≤ getCount s.factory ∧ o' = .error (.table .overflow)) ∨
      o = .error (.table .overflow) := by
  rcases tabled_of_reach ho with ⟨t, s, rfl, h, hreach⟩ | hfail
  · obtain ⟨s₀, hs₀, hsettled⟩ := settled_of_reach hreach
    cases hs₀
    refine Or.inl ⟨t, s, rfl, hreach, h.entries_perm, fun l o' hstep => ?_⟩
    obtain ⟨hl, heq⟩ := Option.ite_none_right_eq_some.mp hstep
    rw [← Option.some.inj heq]
    rcases h.call hsettled hl with hfail | ⟨t', s', -, hok, -⟩
    · exact Or.inr hfail
    · exact Or.inl ⟨t', s', hok⟩
  · exact Or.inr hfail

/- The poly whose reference is gone is the second one in the table; its neighbours stay. -/
def siblingRun : List (TableLabel 40 Nat Nat) :=
  [.call .newVector, .call (.getPoly (.vector 0) 7 0x2#40 ⟨0, 0⟩),
    .call (.getPoly (.vector 0) 8 0x2#40 ⟨1, 1⟩), .call (.getPoly (.vector 0) 9 0x4#40 ⟨2, 2⟩),
    .call (.addTypes 8 0x4#40 ⟨3, 3⟩), .call (.unorderedEraseIt (.vector 0) 1), .cleanup]

theorem entry_table_refines_siblingRun : ∃ (t : Table Nat Unit) (s : RefState 40 Nat Unit Nat),
    (tableMachine (BitVec.ofNat 64) parentTypes).exec (.ok ({}, {})) siblingRun = some (.ok (t, s)) ∧
      (t.entries.map Prod.fst).Perm s.factory.entries.keys := by
  have hrun : (((tableMachine (BitVec.ofNat 64) parentTypes).exec
      (.ok (({} : Table Nat Unit), ({} : RefState 40 Nat Unit Nat))) siblingRun).bind
        Except.toOption).isSome = true := by decide +kernel
  obtain ⟨⟨t, s⟩, hts⟩ := Option.isSome_iff_exists.mp hrun
  obtain ⟨o, ho, hok⟩ := Option.bind_eq_some_iff.mp hts
  rcases entry_table_refines _ _ (Library.Machine.reachable_of_exec rfl ho) with
    ⟨t', s', rfl, -, hperm, -⟩ | rfl
  · exact ⟨t', s', ho, hperm⟩
  · cases hok

end CosmicArchitect.Util.PolyFactory
