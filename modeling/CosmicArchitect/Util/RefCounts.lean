import CosmicArchitect.Util.PolyRef
import CosmicArchitect.Util.PolyCallbacks

/-!
# Calls of a factory keep reference counts exact

The reference count of an entry is the number of `Ref` values to it in components and outside.
The number outside is an integer: between two instructions of an operation a `Ref` may be counted
that no place holds, or held without being counted.
-/

namespace CosmicArchitect.Util.PolyFactory
open PolyType RefState

variable {N : Nat} {PolyID D CB : Type} [DecidableEq PolyID]

abbrev RefFactory (N : Nat) (PolyID D CB : Type) [DecidableEq PolyID] :=
  PolyFactory N PolyID (Component PolyID D) CB

variable {T : ComponentTypes D} {f f' : RefFactory N PolyID D CB} {c c' ext ext' : PolyID → Int}
  {id : PolyID} {entry : PolyEntry N} {fresh : Fresh} {t t' : TypeID N}

/-! ### Counts -/

/-- The reference counts are as given; there are none but those of entries. -/
def Counted (c : PolyID → Int) (f : RefFactory N PolyID D CB) : Prop :=
  ∀ id, (∀ entry, f.entries.lookup id = some entry → (entry.refcount : Int) = c id) ∧
    (f.entries.lookup id = none → c id = 0)

theorem Counted.count (h : Counted c f) (change : Nat → Nat)
    (hc : ∀ entry, f.entries.lookup id = some entry → (change entry.refcount : Int) = c' id)
    (hnone : f.entries.lookup id = none → c' id = 0) (hother : ∀ x, x ≠ id → c' x = c x) :
    Counted c' (PolyFactory.count change f id) := by
  rw [PolyFactory.count]
  intro x
  by_cases hx : x = id
  · subst hx
    cases hid : f.entries.lookup x with
    | none =>
      refine ⟨fun entry he => ?_, fun _ => hnone hid⟩
      simp only [hid] at he
      cases he
    | some entry =>
      simp only [AList.lookup_insert]
      refine ⟨fun entry' he => ?_, fun he => by cases he⟩
      rw [← Option.some.inj he]
      exact hc entry hid
  · rw [hother x hx]
    cases hid : f.entries.lookup id with
    | none => exact h x
    | some entry =>
      simp only [AList.lookup_insert_ne hx]
      exact h x

theorem Counted.fetchSub (h : Counted c f) (c' : PolyID → Int) (hpos : 0 < c id)
    (hc : ∀ x, c x = c' x + [id].count x) :
    fetchSub f id = some (PolyFactory.count (· - 1) f id) ∧
      Counted c' (PolyFactory.count (· - 1) f id) := by
  have hid := hc id
  rw [List.count_singleton_self] at hid
  have hother : ∀ x, x ≠ id → c' x = c x := by
    intro x hx
    have := hc x
    rw [List.count_singleton, if_neg (by simpa using Ne.symm hx)] at this
    omega
  cases hlookup : f.entries.lookup id with
  | none =>
    have := (h id).2 hlookup
    omega
  | some entry =>
    have hcount := (h id).1 entry hlookup
    refine ⟨?_, h.count _ ?_ ?_ hother⟩
    · rw [PolyFactory.fetchSub, hlookup, Option.bind_some, if_pos (by omega)]
    · intro entry' he
      rw [hlookup] at he
      cases he
      omega
    · intro hnone
      rw [hlookup] at hnone
      cases hnone

theorem Counted.releaseAll (ids : List PolyID) : ∀ {c : PolyID → Int} {f : RefFactory N PolyID D CB},
    Counted c f → (∀ x, 0 ≤ c' x) → (∀ x, c x = c' x + ids.count x) →
      releaseAll f ids = some (ids.foldl (PolyFactory.count (· - 1)) f) ∧
        Counted c' (ids.foldl (PolyFactory.count (· - 1)) f) := by
  induction ids with
  | nil =>
    intro c f h hnonneg hc
    refine ⟨rfl, fun x => ?_⟩
    have hx := hc x
    rw [List.count_nil] at hx
    have hcx : c x = c' x := by omega
    rw [← hcx]
    exact h x
  | cons id ids ih =>
    intro c f h hnonneg hc
    have hsplit : ∀ x, c x = (c' x + ids.count x) + [id].count x := by
      intro x
      have := hc x
      rw [List.count_cons] at this
      rw [List.count_singleton]
      push_cast at this ⊢
      omega
    have hpos : 0 < c id := by
      have := hsplit id
      rw [List.count_singleton_self] at this
      have := hnonneg id
      omega
    obtain ⟨hsub, hcounted⟩ := h.fetchSub _ hpos hsplit
    obtain ⟨hall, hcounted⟩ := ih hcounted hnonneg fun _ => rfl
    exact ⟨by rw [PolyFactory.releaseAll, hsub, Option.bind_some, hall, List.foldl_cons], hcounted⟩

theorem Counted.destruct (h : Counted c f) (c' : PolyID → Int) (values : List (Component PolyID D))
    (hnonneg : ∀ x, 0 ≤ c' x)
    (hc : ∀ x, c x = c' x + (values.flatMap T.components.refs).count x) :
    destructChecked T.components f values = some (destruct T.components f values) ∧
      Counted c' (destruct T.components f values) :=
  h.releaseAll _ hnonneg hc

theorem Counted.sameEntries (h : Counted c f) (he : f'.entries = f.entries) : Counted c f' := by
  intro id
  rw [he]
  exact h id

theorem Counted.congr (h : Counted c f) (hc : ∀ x, c' x = c x) : Counted c' f := by
  intro id
  rw [hc]
  exact h id

/-! ### References in components -/

/-- The references in the components behind a header. -/
def headerRefs (N : Nat) (header : Header (Component PolyID D)) : List PolyID :=
  (typeIndexes N).flatMap fun i =>
    ((header.components i).map fun component => component.refs.reduceOption).getD []

def headerAt (f : RefFactory N PolyID D CB) (id : PolyID) : Option (Header (Component PolyID D)) :=
  (f.entries.lookup id).bind fun entry => f.header entry.header

theorem polyRefs_eq (f : RefFactory N PolyID D CB) (id : PolyID) :
    polyRefs f id = ((headerAt f id).map (headerRefs N)).getD [] := by
  simp only [polyRefs, headerAt, componentAt]
  cases f.entries.lookup id with
  | none => simp
  | some entry =>
    simp only [Option.bind_some]
    cases f.header entry.header with
    | none => simp
    | some header =>
      simp only [Option.bind_some, Option.map_some, Option.getD_some, headerRefs, Option.map_map]
      rfl

theorem polyRefs_congr (h : headerAt f' id = headerAt f id) : polyRefs f' id = polyRefs f id := by
  rw [polyRefs_eq, polyRefs_eq, h]

theorem heldRefs_congr (hkeys : f'.entries.keys.Perm f.entries.keys)
    (hsame : ∀ k, headerAt f' k = headerAt f k) : (heldRefs f').Perm (heldRefs f) := by
  have hrefs : polyRefs f' = polyRefs f := funext fun k => polyRefs_congr (hsame k)
  rw [heldRefs, heldRefs, hrefs]
  exact hkeys.flatMap_right _

theorem heldRefs_change (hkeys : f'.entries.keys.Perm f.entries.keys) (hid : id ∈ f.entries)
    (hother : ∀ k, k ≠ id → headerAt f' k = headerAt f k) (x : PolyID) :
    (heldRefs f').count x + (polyRefs f id).count x =
      (heldRefs f).count x + (polyRefs f' id).count x := by
  have hperm : f.entries.keys.Perm (id :: f.entries.keys.erase id) := List.perm_cons_erase hid
  have hrest : (f.entries.keys.erase id).flatMap (polyRefs f') =
      (f.entries.keys.erase id).flatMap (polyRefs f) := by
    refine List.flatMap_congr fun k hk => polyRefs_congr (hother k ?_)
    rintro rfl
    exact (f.entries.keys_nodup.not_mem_erase) hk
  have h' := ((hkeys.trans hperm).flatMap_right (polyRefs f')).count_eq x
  have h := (hperm.flatMap_right (polyRefs f)).count_eq x
  rw [List.flatMap_cons, List.count_append, hrest] at h'
  rw [List.flatMap_cons, List.count_append] at h
  rw [heldRefs, heldRefs]
  omega

theorem heldRefs_insert (hkeys : f'.entries.keys.Perm (id :: f.entries.keys))
    (hother : ∀ k, k ∈ f.entries → headerAt f' k = headerAt f k) (x : PolyID) :
    (heldRefs f').count x = (heldRefs f).count x + (polyRefs f' id).count x := by
  have hrest : f.entries.keys.flatMap (polyRefs f') = f.entries.keys.flatMap (polyRefs f) :=
    List.flatMap_congr fun k hk => polyRefs_congr (hother k hk)
  have h := (hkeys.flatMap_right (polyRefs f')).count_eq x
  rw [List.flatMap_cons, List.count_append, hrest] at h
  rw [heldRefs, heldRefs, h]
  omega

theorem keys_perm (h : ∀ k, (f'.entries.lookup k).isSome = (f.entries.lookup k).isSome) :
    f'.entries.keys.Perm f.entries.keys := by
  refine (List.perm_ext_iff_of_nodup f'.entries.keys_nodup f.entries.keys_nodup).mpr fun k => ?_
  rw [← AList.mem_keys, ← AList.mem_keys, ← AList.lookup_isSome, ← AList.lookup_isSome, h]

theorem SameTables.keys (h : SameTables f f') : f'.entries.keys.Perm f.entries.keys := by
  refine keys_perm fun k => ?_
  rw [← Option.isSome_map (f := PolyEntry.table), h.entries k, Option.isSome_map]

theorem SameTables.headerAt (h : SameTables f f') (k : PolyID) : headerAt f' k = headerAt f k := by
  have hk := h.entries k
  rw [PolyFactory.headerAt, PolyFactory.headerAt, h.header]
  cases he : f.entries.lookup k with
  | none =>
    rw [he, Option.map_none, Option.map_eq_none_iff] at hk
    rw [hk]
  | some entry =>
    rw [he, Option.map_some] at hk
    obtain ⟨entry', he', htable⟩ := Option.map_eq_some_iff.mp hk
    simp only [PolyEntry.table, Prod.mk.injEq] at htable
    rw [he', Option.bind_some, Option.bind_some, htable.2.2]

/-! ### Component types of an archetype -/

omit [DecidableEq PolyID] in
theorem initType_typeOffsets (C : Components PolyID (Component PolyID D))
    (callbacks callbacks' : AList (fun _ : TypeID N => List (PolyEvent × CB))) :
    (initType C callbacks t).typeOffsets = (initType C callbacks' t).typeOffsets := by
  have hlayout : ∀ archetype event callback, (PolyType.addCallback archetype event callback :
      Archetype N CB).typeOffsets = archetype.typeOffsets := fun _ _ _ => rfl
  rw [initType, initType, callbacks_fold (fun archetype => archetype.typeOffsets) hlayout,
    callbacks_fold (fun archetype => archetype.typeOffsets) hlayout]

/-- Polys of the type have a component `i`. -/
def HasComponent (C : Components PolyID (Component PolyID D)) (CB : Type) (t : TypeID N) (i : Nat) :
    Prop :=
  (initType C (∅ : AList (fun _ : TypeID N => List (PolyEvent × CB))) t).HasOffset i

/-- A component that polys of the type may hold. -/
def InType (C : Components PolyID (Component PolyID D)) (CB : Type) (t : TypeID N) (i : Nat) : Prop :=
  i ∈ typeIndexes N ∧ HasComponent C CB t i

/-- Archetypes have the offsets of their types, and polys no components but those of theirs. -/
structure Placed (T : ComponentTypes D) (f : RefFactory N PolyID D CB) : Prop where
  archetype : ∀ {t a entry}, f.archetypes.lookup t = some a → f.archetypeEntry a = some entry →
    ∀ i, entry.archetype.HasOffset i ↔ HasComponent (T.components : Components PolyID _) CB t i
  component : ∀ {id entry header}, f.entries.lookup id = some entry →
    f.header entry.header = some header → ∀ {i component}, header.components i = some component →
      InType (T.components : Components PolyID _) CB entry.typeId i

theorem Derived.placed (h : Derived T.components f f') (hf : Placed T f) {t : TypeID N} {a : Nat}
    {entry : ArchetypeEntry N CB} (ht : f'.archetypes.lookup t = some a)
    (he : f'.archetypeEntry a = some entry) (i : Nat) :
    entry.archetype.HasOffset i ↔ HasComponent (T.components : Components PolyID _) CB t i := by
  rcases h.archetype ht he with hnew | ⟨a₀, entry₀, ht₀, he₀, hsame⟩
  · rw [hnew, HasComponent, Archetype.HasOffset, Archetype.HasOffset, initType_typeOffsets]
  · rw [hsame]
    exact hf.archetype ht₀ he₀ i

/-! ### Exact counts -/

/-- The tables agree, and the counts are the references in components and the given ones. -/
structure Exact (T : ComponentTypes D) (ext : PolyID → Int) (f : RefFactory N PolyID D CB) : Prop where
  tables : Tables f
  placed : Placed T f
  counted : Counted (fun x => ext x + (heldRefs f).count x) f

theorem SameTables.placed (h : SameTables f f') (hf : Placed T f) : Placed T f' := by
  refine ⟨fun ht he => ?_, fun he hheader => ?_⟩
  · rw [h.archetypes] at ht
    rw [h.archetypeEntry] at he
    exact hf.archetype ht he
  · obtain ⟨entry, he₀, htype, -, hh⟩ := h.lookup he
    rw [h.header, hh] at hheader
    rw [htype]
    exact hf.component he₀ hheader

theorem Exact.sameTables (h : Exact T ext f) (hs : SameTables f f')
    (hc : Counted (fun x => ext' x + (heldRefs f).count x) f') : Exact T ext' f' := by
  refine ⟨hs.tables h.tables, hs.placed h.placed, hc.congr fun x => ?_⟩
  rw [(heldRefs_congr hs.keys hs.headerAt).count_eq]

theorem Exact.fetchSub (h : Exact T ext f) (id : PolyID) (ext' : PolyID → Int)
    (hpos : 0 < ext id + (heldRefs f).count id) (hc : ∀ x, ext x = ext' x + [id].count x) :
    ∃ f', fetchSub f id = some f' ∧ Exact T ext' f' ∧ SameTables f f' := by
  obtain ⟨hsub, hcounted⟩ := h.counted.fetchSub (fun x => ext' x + (heldRefs f).count x)
    hpos fun x => by rw [hc x]; omega
  have hs := count_sameTables (· - 1) f id
  exact ⟨_, hsub, h.sameTables hs hcounted, hs⟩

theorem Exact.fetchAdd (h : Exact T ext f) (id : PolyID) (ext' : PolyID → Int)
    (hid : (f.entries.lookup id).isSome)
    (hc : ∀ x, ext' x = ext x + [id].count x) :
    ∃ f', fetchAdd f id = some f' ∧ Exact T ext' f' ∧ SameTables f f' := by
  obtain ⟨entry, he⟩ := Option.isSome_iff_exists.mp hid
  have hs := count_sameTables (· + 1) f id
  refine ⟨_, by rw [PolyFactory.fetchAdd, he, Option.map_some], h.sameTables hs ?_, hs⟩
  refine h.counted.count _ ?_ ?_ ?_
  · intro entry' he'
    have hcount : (entry'.refcount : Int) = ext id + (heldRefs f).count id :=
      (h.counted id).1 entry' he'
    rw [hc id, List.count_singleton_self]
    push_cast
    omega
  · intro hnone
    rw [he] at hnone
    cases hnone
  · intro x hx
    rw [hc x, List.count_singleton, if_neg (by simpa using Ne.symm hx)]
    push_cast
    omega

theorem Exact.exists (h : Exact T ext f) (hpos : 0 < ext id + (heldRefs f).count id) :
    (f.entries.lookup id).isSome := by
  cases he : f.entries.lookup id with
  | none =>
    have hzero : ext id + (heldRefs f).count id = 0 := (h.counted id).2 he
    omega
  | some entry => rfl

/-! ### Type changes -/

theorem count_split (l : List Nat) (old new dropped : Nat → Option (Component PolyID D)) (x : PolyID)
    (h : ∀ i ∈ l, (((old i).map fun c => c.refs.reduceOption).getD []).count x =
      (((new i).map fun c => c.refs.reduceOption).getD []).count x +
        (((dropped i).map fun c => c.refs.reduceOption).getD []).count x) :
    (l.flatMap fun i => ((old i).map fun c => c.refs.reduceOption).getD []).count x =
      (l.flatMap fun i => ((new i).map fun c => c.refs.reduceOption).getD []).count x +
        ((l.filterMap dropped).flatMap fun c => c.refs.reduceOption).count x := by
  induction l with
  | nil => rfl
  | cons i l ih =>
    have hi := h i (List.mem_cons_self ..)
    have hl := ih fun j hj => h j (List.mem_cons_of_mem _ hj)
    rw [List.flatMap_cons, List.count_append, List.flatMap_cons, List.count_append,
      List.filterMap_cons]
    cases hd : dropped i with
    | none =>
      rw [hd, Option.map_none, Option.getD_none, List.count_nil] at hi
      simp only
      omega
    | some c =>
      rw [hd, Option.map_some, Option.getD_some] at hi
      simp only [List.flatMap_cons, List.count_append]
      omega

theorem count_update (l : List Nat) (hl : l.Nodup) (components : Nat → Option (Component PolyID D))
    {i : Nat} (hi : i ∈ l) {component : Component PolyID D} (hc : components i = some component)
    (component' : Component PolyID D) (x : PolyID) :
    (l.flatMap fun j => ((Function.update components i (some component') j).map fun c =>
      c.refs.reduceOption).getD []).count x + component.refs.reduceOption.count x =
        (l.flatMap fun j => ((components j).map fun c => c.refs.reduceOption).getD []).count x +
          component'.refs.reduceOption.count x := by
  have hperm := List.perm_cons_erase hi
  have hrest : (l.erase i).flatMap (fun j => ((Function.update components i (some component') j).map
      fun c => c.refs.reduceOption).getD []) =
        (l.erase i).flatMap fun j => ((components j).map fun c => c.refs.reduceOption).getD [] := by
    refine List.flatMap_congr fun j hj => ?_
    have hji : j ≠ i := by
      rintro rfl
      exact hl.not_mem_erase hj
    rw [Function.update_of_ne hji]
  rw [(hperm.flatMap_right _).count_eq x, (hperm.flatMap_right fun j =>
    ((components j).map fun c => c.refs.reduceOption).getD []).count_eq x, List.flatMap_cons,
    List.flatMap_cons, hrest, List.count_append, List.count_append, Function.update_self, hc,
    Option.map_some, Option.map_some, Option.getD_some, Option.getD_some]
  omega

omit [DecidableEq PolyID] in
theorem construct_refs (T : ComponentTypes D) (i : Nat) :
    ((T.components : Components PolyID _).info i).construct.refs.reduceOption = [] := by
  show (List.replicate (T.members i) none).reduceOption = []
  induction T.members i with
  | zero => rfl
  | succ n ih => rw [List.replicate_succ, List.reduceOption_cons_of_none, ih]

/-- A new poly takes the components that both types have; the others are destructed. -/
theorem updatePolyTypeWith_spec {kinds : Nat → Option (TypeID N)} (hf : Tables f)
    (hhost : Hosted f kinds) (hplaced : Placed T f) (hfree : IsFree f fresh) {h : Nat}
    {header : Header (Component PolyID D)} (hk : kinds h = some t) (hheader : f.header h = some header)
    (hcomponent : ∀ {i c}, header.components i = some c →
      InType (T.components : Components PolyID _) CB t i)
    (hinc : Includes t' (headerID N)) (hne : t' ≠ t) :
    ∃ f₁ newHeader dropped, f₁.entries = f.entries ∧
      Hosted f₁ (Function.update kinds fresh.header (some t')) ∧
      f₁.header = Function.update f.header fresh.header (some newHeader) ∧
      (∀ {i c}, newHeader.components i = some c →
        InType (T.components : Components PolyID _) CB t' i) ∧
      (∀ x, (headerRefs N header).count x =
        (headerRefs N newHeader).count x + (dropped.flatMap T.components.refs).count x) ∧
      ∀ destruct, updatePolyTypeWith T.components destruct fresh f h t t' =
        (destruct f₁ dropped).bind fun f₂ =>
          (deallocatePoly f₂ t h).map fun f₃ => (f₃, fresh.header) := by
  obtain ⟨f₁, header₁, halloc, hf₁, hheader₁, hentries₁⟩ :=
    allocatePoly_spec (C := T.components) hhost hfree hinc
  have hderived := allocatePoly_derived hf hfree halloc
  have hkfresh := hhost.toListed.free (Option.isNone_iff_eq_none.mp hfree.1)
  have hhne : h ≠ fresh.header := by
    intro hc
    rw [hc, hkfresh] at hk
    cases hk
  have hk₁ : Function.update kinds fresh.header (some t') h = some t := by
    rw [Function.update_of_ne hhne]
    exact hk
  -- both archetypes have the components of their types
  have hfind : ∀ {x t₀}, Function.update kinds fresh.header (some t') x = some t₀ →
      ∃ header entry, f₁.header x = some header ∧ f₁.archetypeEntry header.archetype = some entry ∧
        ∀ i, entry.archetype.HasOffset i ↔
          HasComponent (T.components : Components PolyID _) CB t₀ i := by
    intro x t₀ hx
    obtain ⟨-, a, header, hlookup, hheader, rfl⟩ := hf₁.header hx
    obtain ⟨entry, hentry, -⟩ := hf₁.archetype hlookup
    exact ⟨header, entry, hheader, hentry, hderived.placed hplaced hlookup hentry⟩
  obtain ⟨oldHeader, oldEntry, hold, holdEntry, holdHas⟩ := hfind hk₁
  obtain ⟨newHeader, newEntry, hnew, hnewEntry, hnewHas⟩ :=
    hfind (Function.update_self fresh.header (some t') kinds)
  have holdEq : oldHeader = header := by
    rw [hheader₁, Function.update_of_ne hhne, hheader] at hold
    exact (Option.some.inj hold).symm
  subst holdEq
  obtain ⟨components, hcomponents⟩ : ∃ components : Nat → Option (Component PolyID D),
    components = fun i => if i ∈ typeIndexes N ∧ newEntry.archetype.HasOffset i then
      if oldEntry.archetype.HasOffset i then oldHeader.components i
      else some ((T.components : Components PolyID _).info i).construct
    else none := ⟨_, rfl⟩
  refine ⟨{ f₁ with
      header := Function.update f₁.header fresh.header
        (some { newHeader with components := components }) },
    { newHeader with components := components },
    (typeIndexes N).filterMap fun i =>
      if oldEntry.archetype.HasOffset i ∧ ¬ newEntry.archetype.HasOffset i then
        oldHeader.components i else none, hentries₁, hf₁.setHeader _ hnew rfl, ?_, ?_, ?_, ?_⟩
  · show Function.update f₁.header fresh.header _ = _
    rw [hheader₁, Function.update_idem]
  · intro i c hc
    rw [hcomponents] at hc
    obtain ⟨⟨hi, hhas⟩, -⟩ := Option.ite_none_right_eq_some.mp hc
    exact ⟨hi, (hnewHas i).mp hhas⟩
  · intro x
    refine count_split (typeIndexes N) _ _ _ x fun i hi => ?_
    rw [hcomponents]
    by_cases ho : oldEntry.archetype.HasOffset i
    · by_cases hn : newEntry.archetype.HasOffset i
      · simp [hi, ho, hn]
      · simp [ho, hn]
    · have hnone : oldHeader.components i = none := by
        cases hc : oldHeader.components i with
        | none => rfl
        | some c => exact absurd ((holdHas i).mpr (hcomponent hc).2) ho
      by_cases hn : newEntry.archetype.HasOffset i
      · simp [hi, ho, hn, hnone, construct_refs]
      · simp [ho, hn, hnone]
  · intro destruct
    simp only [updatePolyTypeWith, if_neg hne, halloc, Option.bind_eq_bind, Option.bind_some, hold,
      hnew, holdEntry, hnewEntry, hcomponents]
    refine congrArg _ (funext fun f₂ => ?_)
    cases deallocatePoly f₂ t h <;> rfl

/-- The components that the archetype gives a place are all that the poly holds. -/
theorem count_headerRefs (header : Header (Component PolyID D)) (has : Nat → Prop) [DecidablePred has]
    (hhas : ∀ i c, header.components i = some c → has i) (x : PolyID) :
    (headerRefs N header).count x = (((typeIndexes N).filterMap fun i =>
      if has i then header.components i else none).flatMap fun c => c.refs.reduceOption).count x := by
  have hsplit := count_split (typeIndexes N) header.components (fun _ => none)
    (fun i => if has i then header.components i else none) x ?_
  · have hnil : (typeIndexes N).flatMap (fun _ =>
        ((none : Option (Component PolyID D)).map fun c => c.refs.reduceOption).getD []) = [] :=
      List.flatMap_eq_nil_iff.mpr fun _ _ => rfl
    rw [hnil, List.count_nil, Nat.zero_add] at hsplit
    exact hsplit
  · intro i _
    by_cases hi : has i
    · simp [hi]
    · have hnone : header.components i = none := by
        cases hc : header.components i with
        | none => rfl
        | some c => exact absurd (hhas i c hc) hi
      simp [hi, hnone]

/-- Entries but the given one keep their tables and headers. -/
def KeepsOthers (f f' : RefFactory N PolyID D CB) (id : PolyID) : Prop :=
  ∀ k, k ≠ id → (f'.entries.lookup k).map PolyEntry.table = (f.entries.lookup k).map PolyEntry.table ∧
    headerAt f' k = headerAt f k

/-- Entries with the same tables whose headers are where they were. -/
theorem keepsOthers_of_headers
    (htables : ∀ k, k ≠ id → (f'.entries.lookup k).map PolyEntry.table =
      (f.entries.lookup k).map PolyEntry.table)
    (hheader : ∀ {k e}, k ≠ id → f.entries.lookup k = some e → f'.header e.header = f.header e.header) :
    KeepsOthers f f' id := by
  intro k hk
  refine ⟨htables k hk, ?_⟩
  have htable := htables k hk
  rw [headerAt, headerAt]
  cases he : f.entries.lookup k with
  | none =>
    rw [he, Option.map_none, Option.map_eq_none_iff] at htable
    rw [htable, Option.bind_none, Option.bind_none]
  | some e =>
    rw [he, Option.map_some] at htable
    obtain ⟨e', he', htable⟩ := Option.map_eq_some_iff.mp htable
    simp only [PolyEntry.table, Prod.mk.injEq] at htable
    rw [he', Option.bind_some, Option.bind_some, htable.2.2]
    exact hheader hk he

theorem KeepsOthers.kept (h : KeepsOthers f f' id) {entries : AList fun _ : PolyID => PolyEntry N}
    (hid : entries.lookup id = none) : ∀ k, k ∈ entries → headerAt f' k = headerAt f k := by
  intro k hk
  refine (h k fun hc => ?_).2
  rw [hc, ← AList.lookup_isSome, hid] at hk
  cases hk

/-- No entry has the header that is not in use. -/
theorem header_ne_fresh {kinds : Nat → Option (TypeID N)} (hhost : Hosted f kinds)
    (hreg : Registered f kinds) (hfree : IsFree f fresh) {k : PolyID} {e : PolyEntry N}
    (he : f.entries.lookup k = some e) : e.header ≠ fresh.header := by
  intro hc
  have hk := (hreg.entry he).1
  rw [hc, hhost.toListed.free (Option.isNone_iff_eq_none.mp hfree.1)] at hk
  cases hk

theorem KeepsOthers.placed (h : KeepsOthers f f' id) (hderived : Derived T.components f f')
    (hf : Placed T f)
    (hid : ∀ {entry header}, f'.entries.lookup id = some entry → f'.header entry.header = some header →
      ∀ {i c}, header.components i = some c →
        InType (T.components : Components PolyID _) CB entry.typeId i) : Placed T f' := by
  refine ⟨fun ht he => hderived.placed hf ht he, fun {k entry header} he hheader {i c} hc => ?_⟩
  by_cases hk : k = id
  · subst hk
    exact hid he hheader hc
  · obtain ⟨htable, hat⟩ := h k hk
    rw [he, Option.map_some] at htable
    obtain ⟨entry₀, he₀, htable⟩ := Option.map_eq_some_iff.mp htable.symm
    simp only [PolyEntry.table, Prod.mk.injEq] at htable
    rw [headerAt, headerAt, he, he₀, Option.bind_some, Option.bind_some, hheader] at hat
    rw [← htable.1]
    exact hf.component he₀ hat.symm hc

theorem Exact.retypeWith_self (h : Exact T ext f) (he : f.entries.lookup id = some entry) :
    ∃ f', retypeWith T.components (destructChecked T.components) fresh f id entry entry.typeId =
      some f' ∧ Exact T ext f' := by
  obtain ⟨kinds, hhost, hreg⟩ := h.tables
  obtain ⟨-, header, hheader, ha⟩ := hreg.entry he
  obtain ⟨entry', hentry'⟩ : ∃ entry', entry' = { entry with
    typeId := entry.typeId, archetype := header.archetype, header := entry.header } := ⟨_, rfl⟩
  obtain ⟨f', hf'⟩ : ∃ f', f' = { f with entries := f.entries.insert id entry' } := ⟨_, rfl⟩
  have hlookup : ∀ k, f'.entries.lookup k = f.entries.lookup k := by
    intro k
    rw [hf']
    by_cases hk : k = id
    · rw [hk, AList.lookup_insert, he, hentry', ha]
    · rw [AList.lookup_insert_ne hk]
  refine ⟨f', ?_, h.sameTables ⟨?_, ?_, ?_, fun k => by rw [hlookup]⟩ ?_⟩
  · rw [PolyFactory.retypeWith, updatePolyTypeWith, if_pos rfl]
    simp only [Option.bind_eq_bind, Option.bind_some, hheader, he, hf', hentry']
  · rw [hf']
  · rw [hf']
  · rw [hf']
  · intro k
    rw [hlookup]
    exact h.counted k

theorem Exact.retypeWith (h : Exact T ext f) (hext : ∀ x, 0 ≤ ext x) (hfree : IsFree f fresh)
    (he : f.entries.lookup id = some entry) (hinc : Includes t' (headerID N)) :
    ∃ f', retypeWith T.components (destructChecked T.components) fresh f id entry t' = some f' ∧
      Exact T ext f' := by
  by_cases hne : t' = entry.typeId
  · rw [hne]
    exact h.retypeWith_self he
  obtain ⟨kinds, hhost, hreg⟩ := h.tables
  obtain ⟨hk, header, hheader, -⟩ := hreg.entry he
  obtain ⟨f₁, newHeader, dropped, hentries₁, hf₁, hheader₁, hcomponent, hsplit, hupdate⟩ :=
    updatePolyTypeWith_spec h.tables hhost h.placed hfree hk hheader (h.placed.component he hheader)
      hinc hne
  have hhne := header_ne_fresh hhost hreg hfree he
  have hsame := destruct_sameTables (C := T.components) f₁ dropped
  obtain ⟨f₃, hdealloc, -, hheader₃, hentries₃⟩ := deallocatePoly_spec (h := entry.header)
    (hsame.hosted hf₁) (by rw [Function.update_of_ne hhne]; exact hk)
  obtain ⟨entry₂, he₂, -⟩ := hsame.symm.lookup (e := entry) (by rw [hentries₁]; exact he)
  have hnew : f₃.header fresh.header = some newHeader := by
    rw [hheader₃, Function.update_of_ne (Ne.symm hhne), hsame.header, hheader₁,
      Function.update_self]
  obtain ⟨entry', hentry'⟩ : ∃ entry', entry' = { entry₂ with
    typeId := t', archetype := newHeader.archetype, header := fresh.header } := ⟨_, rfl⟩
  obtain ⟨f', hf'⟩ : ∃ f', f' = { f₃ with entries := f₃.entries.insert id entry' } := ⟨_, rfl⟩
  have hrun : ∀ destruct', destruct' f₁ dropped = some (destruct T.components f₁ dropped) →
      PolyFactory.retypeWith T.components destruct' fresh f id entry t' = some f' := by
    intro destruct' hd
    rw [PolyFactory.retypeWith, hupdate, hd]
    simp only [Option.bind_some, hdealloc, Option.map_some, Option.bind_eq_bind, hnew, hentries₃, he₂,
      hf', hentry']
  -- the entry has the new header, all others are as before
  have hat : headerAt f' id = some newHeader := by
    rw [headerAt, hf']
    simp only [AList.lookup_insert, Option.bind_some, hentry']
    exact hnew
  have hlookup : ∀ k, k ≠ id → (f'.entries.lookup k).map PolyEntry.table =
      (f.entries.lookup k).map PolyEntry.table := by
    intro k hkid
    rw [hf']
    simp only [AList.lookup_insert_ne hkid, hentries₃]
    rw [hsame.entries k, hentries₁]
  have hothers : KeepsOthers f f' id := by
    apply keepsOthers_of_headers hlookup
    intro k e hkid hek
    have hneq : e.header ≠ entry.header := fun hc => hkid (hreg.inj hek he hc)
    have hnf := header_ne_fresh hhost hreg hfree hek
    rw [hf']
    simp only
    rw [hheader₃, Function.update_of_ne hneq, hsame.header, hheader₁, Function.update_of_ne hnf]
  have hkeys : f'.entries.keys.Perm f.entries.keys := by
    refine keys_perm fun k => ?_
    by_cases hkid : k = id
    · rw [hkid, he, hf', AList.lookup_insert, Option.isSome_some, Option.isSome_some]
    · rw [← Option.isSome_map (f := PolyEntry.table), hlookup k hkid, Option.isSome_map]
  have hheld : ∀ x, (heldRefs f).count x =
      (heldRefs f').count x + (dropped.flatMap T.components.refs).count x := by
    intro x
    have hchange := heldRefs_change hkeys (AList.lookup_isSome.mp (by rw [he]; rfl))
      (fun k hkid => (hothers k hkid).2) x
    have hx := hsplit x
    rw [polyRefs_eq, polyRefs_eq, hat, headerAt, he, Option.bind_some, hheader] at hchange
    simp only [Option.map_some, Option.getD_some] at hchange
    omega
  obtain ⟨hchecked, hcounted⟩ := (h.counted.sameEntries hentries₁).destruct (T := T)
    (fun x => ext x + (heldRefs f').count x) dropped
    (fun x => by have := hext x; omega) fun x => by rw [hheld x]; push_cast; omega
  have hunchecked : retype T.components fresh f id entry t' = some f' := hrun _ rfl
  obtain ⟨f'', hf'', htables⟩ := retype_spec (C := T.components) h.tables hfree he hinc
  cases hunchecked.symm.trans hf''
  refine ⟨f', hrun _ hchecked, htables, ?_, ?_⟩
  · refine hothers.placed (retype_derived h.tables hfree hunchecked) h.placed ?_
    intro entry' header' he' hheader' i c hc
    rw [headerAt, he', Option.bind_some, hheader'] at hat
    cases hat
    rw [hf', AList.lookup_insert, hentry'] at he'
    rw [← Option.some.inj he']
    exact hcomponent hc
  · have hid : f'.entries.lookup id = some entry' := by rw [hf', AList.lookup_insert]
    have hne : ∀ k, k ≠ id →
        f'.entries.lookup k = (destruct T.components f₁ dropped).entries.lookup k := by
      intro k hkid
      rw [hf', AList.lookup_insert_ne hkid, hentries₃]
    intro k
    by_cases hkid : k = id
    · rw [hkid, hid]
      refine ⟨fun e hee => ?_, fun hee => by cases hee⟩
      rw [← Option.some.inj hee, hentry']
      exact (hcounted id).1 entry₂ he₂
    · rw [hne k hkid]
      exact hcounted k

/-! ### Creation and cleanup -/

omit [DecidableEq PolyID] in
theorem constructPoly_refs (T : ComponentTypes D) (archetype : Archetype N CB) (a : Nat) :
    headerRefs N (Header.mk a (constructPoly (T.components : Components PolyID _).info archetype)) =
      [] := by
  refine List.flatMap_eq_nil_iff.mpr fun i _ => ?_
  simp only [constructPoly]
  split
  · rw [Option.map_some, Option.getD_some, construct_refs]
  · rfl

theorem Exact.getPoly (h : Exact T ext f) (id : PolyID) (ext' : PolyID → Int)
    (hfree : IsFree f fresh) (initialTypes : TypeID N)
    (hc : ∀ x, ext' x = ext x + [id].count x) :
    ∃ f', getPoly T.components fresh f id initialTypes = some f' ∧ Exact T ext' f' ∧
      ∀ k, k ∈ f.entries → headerAt f' k = headerAt f k := by
  cases he : f.entries.lookup id with
  | some entry =>
    obtain ⟨f', hadd, hexact, hs⟩ := h.fetchAdd id ext' (by rw [he]; rfl) hc
    rw [PolyFactory.fetchAdd, he, Option.map_some, Option.some_inj] at hadd
    exact ⟨f', by rw [PolyFactory.getPoly, he, ← hadd], hexact, fun k _ => hs.headerAt k⟩
  | none =>
    have hinc := includes_or initialTypes (headerID N)
    obtain ⟨f', hget, htables⟩ : ∃ f', PolyFactory.getPoly T.components fresh f id initialTypes =
      some f' ∧ Tables f' := getPoly_spec h.tables hfree initialTypes
    have hderived := getPoly_derived h.tables hfree hget
    obtain ⟨kinds, hhost, hreg⟩ := h.tables
    obtain ⟨f₁, header, halloc, hf₁, hheader₁, hentries₁⟩ :=
      allocatePoly_spec (C := T.components) hhost hfree hinc
    obtain ⟨-, a, header', hlookup, hheader, rfl⟩ :=
      hf₁.header (Function.update_self fresh.header _ _)
    obtain ⟨archetype, harchetype, -⟩ := hf₁.archetype hlookup
    have hplaced := (allocatePoly_derived h.tables hfree halloc).placed h.placed hlookup harchetype
    obtain ⟨entry, hentry⟩ : ∃ entry : PolyEntry N, entry = {
      typeId := initialTypes ||| headerID N, archetype := header'.archetype,
      header := fresh.header, refcount := 1 } := ⟨_, rfl⟩
    have heq : f' = { f₁ with
        header := Function.update f₁.header fresh.header (some { header' with
          components := constructPoly (T.components : Components PolyID _).info archetype.archetype })
        entries := f₁.entries.insert id entry } := by
      rw [PolyFactory.getPoly, he] at hget
      simp only [halloc, Option.bind_eq_bind, Option.bind_some, hheader, harchetype,
        Option.some_inj] at hget
      rw [← hget, hentry]
    have hid : f'.entries.lookup id = some entry := by rw [heq, AList.lookup_insert]
    have hother : ∀ k, k ≠ id → f'.entries.lookup k = f.entries.lookup k := by
      intro k hk
      rw [heq, AList.lookup_insert_ne hk, hentries₁]
    have hat : headerAt f' id = some { header' with
        components := constructPoly (T.components : Components PolyID _).info archetype.archetype } := by
      rw [headerAt, hid, Option.bind_some, hentry, heq]
      exact Function.update_self ..
    have hothers : KeepsOthers f f' id := by
      apply keepsOthers_of_headers fun k hk => by rw [hother k hk]
      intro k e hk hek
      have hne := header_ne_fresh hhost hreg hfree hek
      rw [heq]
      simp only
      rw [Function.update_of_ne hne, hheader₁, Function.update_of_ne hne]
    have hkept := hothers.kept he
    have hkeys : f'.entries.keys.Perm (id :: f.entries.keys) := by
      rw [heq, AList.keys_insert, hentries₁, List.erase_of_not_mem]
      rw [← AList.mem_keys, ← AList.lookup_isSome, he]
      exact fun hc' => by cases hc'
    refine ⟨f', hget, ⟨htables, ?_, ?_⟩, hkept⟩
    · refine hothers.placed hderived h.placed ?_
      intro entry' header'' he' hheader' i c hcomponent
      rw [headerAt, he', Option.bind_some, hheader'] at hat
      cases hat
      rw [hid] at he'
      rw [← Option.some.inj he', hentry]
      obtain ⟨⟨hi, hhas⟩, -⟩ := Option.ite_none_right_eq_some.mp hcomponent
      exact ⟨hi, (hplaced i).mp hhas⟩
    · refine Counted.congr (c := fun x => ext' x + (heldRefs f).count x) ?_ ?_
      · intro k
        by_cases hk : k = id
        · rw [hk, hid]
          refine ⟨fun e hee => ?_, fun hee => by cases hee⟩
          have hzero : ext id + (heldRefs f).count id = 0 := (h.counted id).2 he
          have hcid := hc id
          rw [List.count_singleton_self] at hcid
          rw [← Option.some.inj hee, hentry]
          push_cast
          omega
        · have hck := hc k
          rw [List.count_singleton, if_neg (by simpa using Ne.symm hk)] at hck
          have hckk : ext' k + (heldRefs f).count k = ext k + (heldRefs f).count k := by
            push_cast at hck
            omega
          rw [hother k hk]
          simp only [hckk]
          exact h.counted k
      · intro x
        rw [heldRefs_insert hkeys hkept x, polyRefs_eq, hat, Option.map_some, Option.getD_some,
          constructPoly_refs, List.count_nil, Nat.add_zero]

/-- An entry without references is erased, and gives back what its components hold. -/
theorem Exact.cleanupEntryWith_zero (h : Exact T ext f) (hext : ∀ x, 0 ≤ ext x)
    (he : f.entries.lookup id = some entry) (hzero : entry.refcount = 0) :
    ∃ f', cleanupEntryWith (destructChecked T.components) f id = some f' ∧ Exact T ext f' ∧
      f'.entries.lookup id = none ∧ KeepsOthers f f' id := by
  obtain ⟨kinds, hhost, hreg⟩ := h.tables
  obtain ⟨hk, header, hheader, ha⟩ := hreg.entry he
  obtain ⟨-, a, header', hlookup, hheader', ha'⟩ := hhost.header hk
  cases hheader.symm.trans hheader'
  obtain ⟨archetype, harchetype, -⟩ := hhost.archetype hlookup
  rw [← ha', ha] at harchetype
  have hhas := h.placed.archetype hlookup (by rw [← ha', ha]; exact harchetype)
  obtain ⟨values, hvalues⟩ : ∃ values, values = (typeIndexes N).filterMap fun i =>
    if archetype.archetype.HasOffset i then header.components i else none := ⟨_, rfl⟩
  have hsame := destruct_sameTables (C := T.components) f values
  obtain ⟨f₁, hdealloc, -, hheader₁, hentries₁⟩ := deallocatePoly_spec (hsame.hosted hhost) hk
  obtain ⟨f', hf'⟩ : ∃ f', f' = { f₁ with entries := f₁.entries.erase id } := ⟨_, rfl⟩
  have hrun : ∀ destruct', destruct' f values = some (destruct T.components f values) →
      PolyFactory.cleanupEntryWith destruct' f id = some f' := by
    intro destruct' hd
    rw [PolyFactory.cleanupEntryWith, he]
    simp only [if_pos hzero, Option.bind_eq_bind, hheader, Option.bind_some, harchetype]
    rw [← hvalues, hd, Option.bind_some, hdealloc, Option.bind_some, hf']
  have hother : ∀ k, k ≠ id → f'.entries.lookup k =
      (destruct T.components f values).entries.lookup k := by
    intro k hkid
    rw [hf', AList.lookup_erase_ne hkid, hentries₁]
  have hid : f'.entries.lookup id = none := by rw [hf', AList.lookup_erase]
  have hothers : KeepsOthers f f' id := by
    apply keepsOthers_of_headers fun k hkid => by rw [hother k hkid, hsame.entries]
    intro k e hkid hek
    have hne : e.header ≠ entry.header := fun hc => hkid (hreg.inj hek he hc)
    rw [hf']
    simp only
    rw [hheader₁, Function.update_of_ne hne, hsame.header]
  have hkeys : f.entries.keys.Perm (id :: f'.entries.keys) := by
    have herase : f'.entries.keys = (destruct T.components f values).entries.keys.erase id := by
      rw [hf', ← hentries₁]
      exact AList.keys_erase ..
    have hmem : id ∈ (destruct T.components f values).entries.keys := by
      rw [← AList.mem_keys, ← AList.lookup_isSome, ← Option.isSome_map (f := PolyEntry.table),
        hsame.entries, he]
      rfl
    rw [herase]
    exact hsame.keys.symm.trans (List.perm_cons_erase hmem)
  have hkept : ∀ k, k ∈ f'.entries → headerAt f k = headerAt f' k :=
    fun k hk' => (hothers.kept hid k hk').symm
  -- the destructed components are all that the poly holds
  have hheld : ∀ x, (heldRefs f).count x =
      (heldRefs f').count x + (values.flatMap T.components.refs).count x := by
    intro x
    rw [heldRefs_insert hkeys hkept x, polyRefs_eq, headerAt, he, Option.bind_some, hheader,
      Option.map_some, Option.getD_some, hvalues]
    rw [count_headerRefs header archetype.archetype.HasOffset _ x]
    · rfl
    · exact fun i c hc => (hhas i).mpr (h.placed.component he hheader hc).2
  obtain ⟨hchecked, hcounted⟩ := h.counted.destruct (T := T)
    (fun x => ext x + (heldRefs f').count x) values
    (fun x => by have := hext x; omega) fun x => by rw [hheld x]; push_cast; omega
  have hunchecked : cleanupEntry T.components f id = some f' := hrun _ rfl
  obtain ⟨f'', hf'', htables⟩ := cleanupEntry_spec (C := T.components) h.tables id
  cases hunchecked.symm.trans hf''
  refine ⟨f', hrun _ hchecked, ⟨htables, ?_, ?_⟩, hid, hothers⟩
  · refine hothers.placed (cleanupEntry_derived hunchecked) h.placed ?_
    intro entry' header' he'
    rw [hid] at he'
    cases he'
  · intro k
    by_cases hkid : k = id
    · rw [hkid, hid]
      refine ⟨fun e hee => (by cases hee), fun _ => ?_⟩
      have hcount : (entry.refcount : Int) = ext id + (heldRefs f).count id :=
        (h.counted id).1 entry he
      have hnonneg := hext id
      have hx := hheld id
      simp only
      omega
    · rw [hother k hkid]
      exact hcounted k

theorem Exact.cleanupEntryWith (h : Exact T ext f) (hext : ∀ x, 0 ≤ ext x) (id : PolyID) :
    ∃ f', cleanupEntryWith (destructChecked T.components) f id = some f' ∧ Exact T ext f' ∧
      ∀ k, f'.entries.lookup k = none → (f.entries.lookup k).isSome →
        k = id ∧ ext id = 0 ∧ (heldRefs f).count id = 0 := by
  have hkeep : ∀ k, f.entries.lookup k = none → (f.entries.lookup k).isSome →
      k = id ∧ ext id = 0 ∧ (heldRefs f).count id = 0 := by
    intro k hnone hsome
    rw [hnone] at hsome
    cases hsome
  cases he : f.entries.lookup id with
  | none => exact ⟨f, by rw [PolyFactory.cleanupEntryWith, he], h, hkeep⟩
  | some entry =>
    by_cases hzero : entry.refcount = 0
    · obtain ⟨f', hf', h', -, hothers⟩ := h.cleanupEntryWith_zero hext he hzero
      refine ⟨f', hf', h', ?_⟩
      intro k hnone hsome
      by_cases hkid : k = id
      · have hcount : (entry.refcount : Int) = ext id + (heldRefs f).count id :=
          (h.counted id).1 entry he
        have hnonneg := hext id
        refine ⟨hkid, ?_, ?_⟩ <;> omega
      · have htable := (hothers k hkid).1
        rw [hnone, Option.map_none] at htable
        rw [← Option.isSome_map (f := PolyEntry.table), ← htable] at hsome
        cases hsome
    · refine ⟨f, ?_, h, hkeep⟩
      rw [PolyFactory.cleanupEntryWith, he]
      simp only [if_neg hzero]

theorem Exact.cleanupWith (hext : ∀ x, 0 ≤ ext x) (order : List PolyID) :
    ∀ {f : RefFactory N PolyID D CB}, Exact T ext f →
      ∃ f', cleanupWith (destructChecked T.components) f order = some f' ∧ Exact T ext f' := by
  induction order with
  | nil =>
    intro f h
    exact ⟨f, rfl, h⟩
  | cons id order ih =>
    intro f h
    obtain ⟨f₁, hentry, h₁, -⟩ := h.cleanupEntryWith hext id
    obtain ⟨f', hrest, h'⟩ := ih h₁
    exact ⟨f', by rw [PolyFactory.cleanupWith, hentry, Option.bind_some, hrest], h'⟩

/-! ### Callbacks and components -/

theorem Exact.addCallback (h : Exact T ext f) (types : TypeID N) (event : PolyEvent) (callback : CB) :
    Exact T ext (addCallback f types event callback) := by
  refine ⟨addCallback_tables h.tables types event callback, ⟨fun ht he i => ?_, h.placed.component⟩,
    h.counted⟩
  obtain ⟨entry, hentry, heq⟩ := Option.map_eq_some_iff.mp he
  rw [← h.placed.archetype ht hentry i, ← heq]
  split
  · exact Iff.rfl
  · exact Iff.rfl

theorem componentAt_eq {i h : Nat} {component : Component PolyID D}
    (hc : componentAt f id i = some (h, component)) : ∃ entry header,
      f.entries.lookup id = some entry ∧ entry.header = h ∧ f.header h = some header ∧
        header.components i = some component := by
  obtain ⟨entry, he, hc⟩ := Option.bind_eq_some_iff.mp hc
  obtain ⟨header, hheader, hc⟩ := Option.bind_eq_some_iff.mp hc
  obtain ⟨component', hcomponent, heq⟩ := Option.map_eq_some_iff.mp hc
  cases heq
  exact ⟨entry, header, he, rfl, hheader, hcomponent⟩

theorem Exact.setComponent (h : Exact T ext f) {i a : Nat} {component component' : Component PolyID D}
    (hc : componentAt f id i = some (a, component))
    (hext : ∀ x, ext' x + component'.refs.reduceOption.count x =
      ext x + component.refs.reduceOption.count x) :
    Exact T ext' (setComponent f a i component') := by
  obtain ⟨entry, header, he, rfl, hheader, hcomponent⟩ := componentAt_eq hc
  have hi := (h.placed.component he hheader hcomponent).1
  obtain ⟨f', hf'⟩ : ∃ f', f' = PolyFactory.setComponent f entry.header i component' := ⟨_, rfl⟩
  obtain ⟨kinds, -, hreg⟩ := h.tables
  have hheader' : f'.header entry.header = some { header with
      components := Function.update header.components i (some component') } := by
    rw [hf']
    show Function.update f.header entry.header _ entry.header = _
    rw [Function.update_self, hheader, Option.map_some]
  have hat : headerAt f' id = some { header with
      components := Function.update header.components i (some component') } := by
    rw [headerAt, show f'.entries = f.entries by rw [hf']; rfl, he, Option.bind_some, hheader']
  have hothers : KeepsOthers f f' id := by
    apply keepsOthers_of_headers fun k _ => by rw [hf']; rfl
    intro k e hk hek
    have hne : e.header ≠ entry.header := fun hc' => hk (hreg.inj hek he hc')
    rw [hf']
    exact Function.update_of_ne hne _ _
  have hheld : ∀ x, (heldRefs f').count x + component.refs.reduceOption.count x =
      (heldRefs f).count x + component'.refs.reduceOption.count x := by
    intro x
    have hkeys : f'.entries.keys.Perm f.entries.keys := by
      rw [hf']
      exact .refl _
    have hchange := heldRefs_change hkeys (AList.lookup_isSome.mp (by rw [he]; rfl))
      (fun k hk => (hothers k hk).2) x
    rw [polyRefs_eq, polyRefs_eq, hat, headerAt, he, Option.bind_some, hheader, Option.map_some,
      Option.map_some, Option.getD_some, Option.getD_some] at hchange
    have hrefs := count_update (typeIndexes N) (List.nodup_range' ..) header.components hi
      hcomponent component' x
    rw [headerRefs, headerRefs] at hchange
    simp only at hchange
    omega
  rw [← hf']
  refine ⟨?_, ?_, ?_⟩
  · rw [hf']
    exact setComponent_tables h.tables _ _ _
  · refine hothers.placed ?_ h.placed ?_
    · rw [hf']
      exact derived_frame f _ f.entries
    · intro entry' header' he' hh' j c hj
      rw [headerAt, he', Option.bind_some, hh'] at hat
      cases hat
      rw [show f'.entries = f.entries by rw [hf']; rfl, he] at he'
      cases he'
      by_cases hji : j = i
      · rw [hji]
        exact h.placed.component he hheader hcomponent
      · simp only [Function.update_of_ne hji] at hj
        exact h.placed.component he hheader hj
  · have hcounted : Counted _ f' := h.counted.sameEntries (by rw [hf']; rfl)
    refine hcounted.congr fun x => ?_
    have hx := hext x
    have hx' := hheld x
    omega

end CosmicArchitect.Util.PolyFactory
