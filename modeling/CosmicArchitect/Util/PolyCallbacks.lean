import CosmicArchitect.Util.PolyEntities

/-!
# Event callbacks of a factory

The callbacks of an archetype are those registered for a subset of its types, whether they were
registered before or after the archetype was created.
-/

namespace CosmicArchitect.Util.PolyFactory
open PolyType Library

variable {N : Nat} {PolyID V CB : Type} [DecidableEq PolyID] {C : Components PolyID V}
  {f f' f'' : PolyFactory N PolyID V CB} {t : TypeID N} {a : Nat} {fresh : Fresh}

/-- The callbacks that `DoEvent` calls with a poly, in order; `GetType` of the poly is the
archetype of its entry. -/
def doEvent (f : PolyFactory N PolyID V CB) (event : PolyEvent) (poly : PolyEntry N) : List CB :=
  ((f.archetypeEntry poly.archetype).map (·.archetype.typeCallbacks event)).getD []

/-- What the calls of a run have registered for an event and a subset of the types. -/
def registered (calls : List (Label N PolyID V CB)) (event : PolyEvent) (typeId : TypeID N) :
    List CB :=
  calls.filterMap fun
    | .addCallback types event' callback =>
      if event' = event ∧ Includes typeId types then some callback else none
    | _ => none

/-- The callbacks for an event in one row of `m_callbacks`. -/
def rowCallbacks (event : PolyEvent) (typeId : TypeID N)
    (row : Sigma fun _ : TypeID N => List (PolyEvent × CB)) : List CB :=
  if Includes typeId row.1 then
    row.2.filterMap fun entry => if entry.1 = event then some entry.2 else none
  else []

/-- The callbacks that `InitType` gives to an archetype. -/
def replayed (callbacks : AList (fun _ : TypeID N => List (PolyEvent × CB))) (event : PolyEvent)
    (typeId : TypeID N) : List CB :=
  callbacks.entries.flatMap (rowCallbacks event typeId)

/-! ### A new archetype -/

theorem addCallback_typeCallbacks (archetype : Archetype N CB) (event event' : PolyEvent)
    (callback : CB) : (PolyType.addCallback archetype event' callback).typeCallbacks event =
      archetype.typeCallbacks event ++ if event' = event then [callback] else [] := by
  show Function.update archetype.typeCallbacks event' _ event = _
  by_cases he : event = event'
  · rw [he, Function.update_self, if_pos rfl]
  · rw [Function.update_of_ne he, if_neg (Ne.symm he), List.append_nil]

theorem row_typeCallbacks (event : PolyEvent) (row : List (PolyEvent × CB)) :
    ∀ archetype : Archetype N CB, (row.foldl (fun archetype entry =>
      PolyType.addCallback archetype entry.1 entry.2) archetype).typeCallbacks event =
        archetype.typeCallbacks event ++
          row.filterMap fun entry => if entry.1 = event then some entry.2 else none := by
  induction row with
  | nil =>
    intro archetype
    exact (List.append_nil _).symm
  | cons entry row ih =>
    intro archetype
    rw [List.foldl_cons, ih, addCallback_typeCallbacks, List.append_assoc, List.filterMap_cons]
    split
    · rfl
    · rfl

theorem rows_typeCallbacks (event : PolyEvent)
    (rows : List (Sigma fun _ : TypeID N => List (PolyEvent × CB))) :
    ∀ archetype : Archetype N CB, (rows.foldl (fun archetype e =>
      if Includes t e.1 then
        e.2.foldl (fun archetype entry => PolyType.addCallback archetype entry.1 entry.2) archetype
      else archetype) archetype).typeCallbacks event =
        archetype.typeCallbacks event ++ rows.flatMap (rowCallbacks event t) := by
  induction rows with
  | nil =>
    intro archetype
    exact (List.append_nil _).symm
  | cons row rows ih =>
    intro archetype
    rw [List.foldl_cons, ih, List.flatMap_cons, ← List.append_assoc, rowCallbacks]
    split
    · rw [row_typeCallbacks]
    · rw [List.append_nil]

theorem types_typeCallbacks (info : Nat → PolyTypeInfo V) (l : List Nat) :
    ∀ archetype : Archetype N CB, (l.foldl (fun archetype i =>
      if t.getLsbD i then addType info archetype i else archetype) archetype).typeCallbacks =
        archetype.typeCallbacks := by
  induction l with
  | nil => exact fun archetype => rfl
  | cons i l ih =>
    intro archetype
    rw [List.foldl_cons, ih]
    split <;> rfl

omit [DecidableEq PolyID] in
theorem initType_typeCallbacks (callbacks : AList (fun _ : TypeID N => List (PolyEvent × CB)))
    (event : PolyEvent) :
    (initType C callbacks t).typeCallbacks event = replayed callbacks event t := by
  rw [initType, rows_typeCallbacks, types_typeCallbacks]
  rfl

/-! ### What the calls do to archetypes -/

/-- Every archetype was there before or is new. -/
structure Derived (C : Components PolyID V) (f f' : PolyFactory N PolyID V CB) : Prop where
  callbacks : f'.callbacks = f.callbacks
  archetype : ∀ {t a entry'}, f'.archetypes.lookup t = some a → f'.archetypeEntry a = some entry' →
    entry'.archetype = initType C f.callbacks t ∨ ∃ a₀ entry, f.archetypes.lookup t = some a₀ ∧
      f.archetypeEntry a₀ = some entry ∧ entry'.archetype = entry.archetype

theorem Derived.refl (f : PolyFactory N PolyID V CB) : Derived C f f :=
  ⟨rfl, fun ht he => Or.inr ⟨_, _, ht, he, rfl⟩⟩

theorem Derived.trans (h : Derived C f f') (h' : Derived C f' f'') : Derived C f f'' := by
  refine ⟨h'.callbacks.trans h.callbacks, fun ht he => ?_⟩
  rcases h'.archetype ht he with hnew | ⟨a', entry', ht', he', hsame⟩
  · rw [h.callbacks] at hnew
    exact Or.inl hnew
  · rw [hsame]
    exact h.archetype ht' he'

theorem SameTables.derived (h : SameTables f f') (hcallbacks : f'.callbacks = f.callbacks) :
    Derived C f f' := by
  refine ⟨hcallbacks, fun ht he => ?_⟩
  rw [h.archetypes] at ht
  rw [h.archetypeEntry] at he
  exact Or.inr ⟨_, _, ht, he, rfl⟩

theorem count_callbacks (change : Nat → Nat) (f : PolyFactory N PolyID V CB) (id : PolyID) :
    (count change f id).callbacks = f.callbacks := by
  rw [count]
  split <;> rfl

theorem destruct_derived (f : PolyFactory N PolyID V CB) (values : List V) :
    Derived C f (destruct C f values) := by
  refine (destruct_sameTables f values).derived ?_
  rw [destruct]
  induction values.flatMap C.refs generalizing f with
  | nil => rfl
  | cons id ids ih => rw [List.foldl_cons, ih, count_callbacks]

theorem allocatePoly_derived (hf : Tables f) (hfree : IsFree f fresh) {poly : Nat}
    (hs : allocatePoly C fresh f t = some (f', poly)) : Derived C f f' := by
  obtain ⟨kinds, hhost, -⟩ := hf
  have hfresh : f.archetypeEntry fresh.archetype = none := Option.isNone_iff_eq_none.mp hfree.2
  have hemplace : Derived C f (emplaceArchetype C fresh.archetype f t).1 := by
    rw [emplaceArchetype]
    split
    · exact .refl f
    · refine ⟨rfl, fun {t' a entry'} ht he => ?_⟩
      simp only at ht he
      by_cases htt : t' = t
      · subst htt
        rw [AList.lookup_insert, Option.some_inj] at ht
        rw [← ht, Function.update_self, Option.some_inj] at he
        rw [← he]
        exact Or.inl rfl
      · rw [AList.lookup_insert_ne htt] at ht
        obtain ⟨entry, hentry, -⟩ := hhost.archetype ht
        have hne : a ≠ fresh.archetype := by
          intro hc
          rw [hc, hfresh] at hentry
          cases hentry
        rw [Function.update_of_ne hne] at he
        exact Or.inr ⟨a, entry', ht, he, rfl⟩
  rw [allocatePoly] at hs
  generalize emplaceArchetype C fresh.archetype f t = p at hemplace hs
  obtain ⟨f₁, a₁⟩ := p
  obtain ⟨entry, hentry, heq⟩ := Option.map_eq_some_iff.mp hs
  cases heq
  refine hemplace.trans ⟨rfl, fun {t' a entry'} ht he => Or.inr ?_⟩
  simp only at ht he hentry
  by_cases ha : a = a₁
  · subst ha
    rw [Function.update_self, Option.some_inj] at he
    exact ⟨_, entry, ht, hentry, by rw [← he]⟩
  · rw [Function.update_of_ne ha] at he
    exact ⟨a, entry', ht, he, rfl⟩

theorem deallocatePoly_derived {poly : Nat} (hs : deallocatePoly f t poly = some f') :
    Derived C f f' := by
  obtain ⟨a, hlookup, hs⟩ := Option.bind_eq_some_iff.mp hs
  obtain ⟨entry, hentry, hs⟩ := Option.map_eq_some_iff.mp hs
  simp only at hs
  split at hs
  · cases hs
    refine ⟨rfl, fun {t' a' entry'} ht he => ?_⟩
    simp only at ht he
    by_cases ha : a' = a
    · rw [ha, Function.update_self] at he
      cases he
    · by_cases htt : t' = t
      · rw [htt, AList.lookup_erase] at ht
        cases ht
      · rw [AList.lookup_erase_ne htt] at ht
        rw [Function.update_of_ne ha] at he
        exact Or.inr ⟨a', entry', ht, he, rfl⟩
  · cases hs
    refine ⟨rfl, fun {t' a' entry'} ht he => Or.inr ?_⟩
    simp only at ht he
    by_cases ha : a' = a
    · subst ha
      rw [Function.update_self, Option.some_inj] at he
      exact ⟨_, entry, ht, hentry, by rw [← he]⟩
    · rw [Function.update_of_ne ha] at he
      exact ⟨a', entry', ht, he, rfl⟩

theorem derived_frame (f : PolyFactory N PolyID V CB) (header : Nat → Option (Header V))
    (entries : AList (fun _ : PolyID => PolyEntry N)) :
    Derived C f { f with header := header, entries := entries } :=
  ⟨rfl, fun ht he => Or.inr ⟨_, _, ht, he, rfl⟩⟩

theorem updatePolyType_derived (hf : Tables f) (hfree : IsFree f fresh) {oldPoly newPoly : Nat}
    {t' : TypeID N} (hs : updatePolyType C fresh f oldPoly t t' = some (f', newPoly)) :
    Derived C f f' := by
  rw [updatePolyType, updatePolyTypeWith] at hs
  split at hs
  · cases hs
    exact .refl f
  · obtain ⟨⟨f₁, poly⟩, halloc, hs⟩ := Option.bind_eq_some_iff.mp hs
    obtain ⟨oldHeader, _, hs⟩ := Option.bind_eq_some_iff.mp hs
    obtain ⟨newHeader, _, hs⟩ := Option.bind_eq_some_iff.mp hs
    obtain ⟨oldArchetype, _, hs⟩ := Option.bind_eq_some_iff.mp hs
    obtain ⟨newArchetype, _, hs⟩ := Option.bind_eq_some_iff.mp hs
    obtain ⟨f₂, hdestruct, hs⟩ := Option.bind_eq_some_iff.mp hs
    cases hdestruct
    obtain ⟨f₃, hdealloc, hs⟩ := Option.bind_eq_some_iff.mp hs
    cases hs
    have halloc := allocatePoly_derived hf hfree halloc
    exact ((halloc.trans (derived_frame f₁ _ f₁.entries)).trans (destruct_derived _ _)).trans
      (deallocatePoly_derived hdealloc)

theorem retype_derived (hf : Tables f) (hfree : IsFree f fresh) {id : PolyID}
    {entry : PolyEntry N} (hs : retype C fresh f id entry t = some f') : Derived C f f' := by
  obtain ⟨⟨f₁, newPoly⟩, hupdate, hs⟩ := Option.bind_eq_some_iff.mp hs
  obtain ⟨header, _, hs⟩ := Option.bind_eq_some_iff.mp hs
  obtain ⟨entry₁, _, hs⟩ := Option.bind_eq_some_iff.mp hs
  cases hs
  exact (updatePolyType_derived hf hfree hupdate).trans (derived_frame f₁ f₁.header _)

theorem getPoly_derived (hf : Tables f) (hfree : IsFree f fresh) {id : PolyID}
    {initialTypes : TypeID N} (hs : getPoly C fresh f id initialTypes = some f') :
    Derived C f f' := by
  rw [getPoly] at hs
  split at hs
  · cases hs
    exact (count_sameTables _ f id).derived (count_callbacks _ f id)
  · obtain ⟨⟨f₁, poly⟩, halloc, hs⟩ := Option.bind_eq_some_iff.mp hs
    obtain ⟨header, _, hs⟩ := Option.bind_eq_some_iff.mp hs
    obtain ⟨archetype, _, hs⟩ := Option.bind_eq_some_iff.mp hs
    cases hs
    exact (allocatePoly_derived hf hfree halloc).trans (derived_frame f₁ _ _)

theorem cleanupEntry_derived {id : PolyID} (hs : cleanupEntry C f id = some f') :
    Derived C f f' := by
  rw [cleanupEntry, cleanupEntryWith] at hs
  split at hs
  · cases hs
    exact .refl f
  · split at hs
    · obtain ⟨header, _, hs⟩ := Option.bind_eq_some_iff.mp hs
      obtain ⟨archetype, _, hs⟩ := Option.bind_eq_some_iff.mp hs
      obtain ⟨f₁, hdestruct, hs⟩ := Option.bind_eq_some_iff.mp hs
      cases hdestruct
      obtain ⟨f₂, hdealloc, hs⟩ := Option.bind_eq_some_iff.mp hs
      cases hs
      exact ((destruct_derived f _).trans (deallocatePoly_derived hdealloc)).trans
        (derived_frame f₂ f₂.header _)
    · cases hs
      exact .refl f

theorem cleanup_derived (order : List PolyID) :
    ∀ {f : PolyFactory N PolyID V CB}, cleanup C f order = some f' → Derived C f f' := by
  induction order with
  | nil =>
    intro f hs
    cases hs
    exact .refl _
  | cons id order ih =>
    intro f hs
    obtain ⟨f₁, hentry, hs⟩ := Option.bind_eq_some_iff.mp hs
    exact (cleanupEntry_derived hentry).trans (ih hs)

/-! ### Registering a callback -/

/-- Inserting a row only moves the other rows. -/
theorem insert_perm (callbacks : AList (fun _ : TypeID N => List (PolyEvent × CB)))
    (types : TypeID N) (row : List (PolyEvent × CB)) :
    ∃ rest, (callbacks.insert types row).entries = ⟨types, row⟩ :: rest ∧
      ∀ event t, (replayed callbacks event t).Perm
        (rowCallbacks event t ⟨types, (callbacks.lookup types).getD []⟩ ++
          rest.flatMap (rowCallbacks event t)) := by
  refine ⟨callbacks.entries.kerase types, AList.entries_insert, fun event t => ?_⟩
  by_cases hmem : types ∈ callbacks.entries.keys
  · obtain ⟨row', l₁, l₂, -, heq, herase⟩ := List.exists_of_kerase hmem
    have hlookup : callbacks.lookup types = some row' := by
      refine AList.mem_lookup_iff.mpr ?_
      rw [heq]
      exact List.mem_append_right _ (List.mem_cons_self ..)
    rw [hlookup, herase, replayed, heq, Option.getD_some]
    have hmiddle : (l₁ ++ ⟨types, row'⟩ :: l₂).Perm (⟨types, row'⟩ :: (l₁ ++ l₂)) :=
      List.perm_middle
    exact hmiddle.flatMap_right (rowCallbacks event t)
  · have hlookup : callbacks.lookup types = none := AList.lookup_eq_none.mpr hmem
    rw [hlookup, List.kerase_of_notMem_keys hmem, replayed, Option.getD_none, rowCallbacks]
    split
    · exact .refl _
    · exact .refl _

/-- The callbacks that are the ones of a registration. -/
def single (types : TypeID N) (event' : PolyEvent) (callback : CB) (event : PolyEvent)
    (typeId : TypeID N) : List CB :=
  if event' = event ∧ Includes typeId types then [callback] else []

omit [DecidableEq PolyID] in
theorem registered_append (calls calls' : List (Label N PolyID V CB)) (event : PolyEvent)
    (t : TypeID N) : registered (calls ++ calls') event t =
      registered calls event t ++ registered calls' event t :=
  List.filterMap_append

theorem addCallback_replayed (types : TypeID N) (event' : PolyEvent) (callback : CB)
    (event : PolyEvent) (t : TypeID N) :
    (replayed (addCallback f types event' callback).callbacks event t).Perm
      (replayed f.callbacks event t ++ single types event' callback event t) := by
  obtain ⟨rest, hrest, hperm⟩ := insert_perm f.callbacks types
    ((f.callbacks.lookup types).getD [] ++ [(event', callback)])
  have hrow : rowCallbacks event t
      ⟨types, (f.callbacks.lookup types).getD [] ++ [(event', callback)]⟩ =
        rowCallbacks event t ⟨types, (f.callbacks.lookup types).getD []⟩ ++
          single types event' callback event t := by
    rw [rowCallbacks, rowCallbacks, single]
    by_cases hinc : Includes t types
    · by_cases he : event' = event
      · simp [hinc, he]
      · simp [hinc, he]
    · simp [hinc]
  rw [replayed, show (addCallback f types event' callback).callbacks = f.callbacks.insert types
    ((f.callbacks.lookup types).getD [] ++ [(event', callback)]) from rfl, hrest,
    List.flatMap_cons, hrow, List.append_assoc]
  refine List.Perm.trans ?_ ((hperm event t).symm.append_right _)
  rw [List.append_assoc]
  exact List.perm_append_comm.append_left _

/-- The archetypes that a registration reaches are those of its types. -/
theorem addCallback_archetype (hf : Tables f) {types : TypeID N} {event' : PolyEvent}
    {callback : CB} {entry' : ArchetypeEntry N CB} (ht : f.archetypes.lookup t = some a)
    (he : (addCallback f types event' callback).archetypeEntry a = some entry') :
    ∃ entry, f.archetypeEntry a = some entry ∧ ∀ event, entry'.archetype.typeCallbacks event =
      entry.archetype.typeCallbacks event ++ single types event' callback event t := by
  obtain ⟨kinds, hhost, -⟩ := hf
  have hany : (f.archetypes.entries.any fun e => e.2 = a ∧ Includes e.1 types) = true ↔
      Includes t types := by
    rw [List.any_eq_true]
    constructor
    · intro h
      obtain ⟨e, he, hea⟩ := h
      obtain ⟨ha, hinc⟩ := of_decide_eq_true hea
      have hlookup : f.archetypes.lookup e.1 = some a := AList.mem_lookup_iff.mpr (ha ▸ he)
      rw [← hhost.node_inj hlookup ht]
      exact hinc
    · intro hinc
      exact ⟨⟨t, a⟩, AList.mem_lookup_iff.mp ht, decide_eq_true ⟨rfl, hinc⟩⟩
  obtain ⟨entry, hentry, heq⟩ := Option.map_eq_some_iff.mp he
  refine ⟨entry, hentry, fun event => ?_⟩
  rw [← heq]
  by_cases hinc : Includes t types
  · rw [if_pos (hany.mpr hinc)]
    show (PolyType.addCallback entry.archetype event' callback).typeCallbacks event = _
    rw [addCallback_typeCallbacks, single]
    simp only [hinc, and_true]
  · rw [if_neg (fun h => hinc (hany.mp h)), single, if_neg (fun h => hinc h.2), List.append_nil]

/-! ### Runs -/

/-- Archetypes have the callbacks registered so far, and so will new ones. -/
structure Reached (calls : List (Label N PolyID V CB)) (f : PolyFactory N PolyID V CB) : Prop where
  replayed : ∀ event t, (replayed f.callbacks event t).Perm (registered calls event t)
  archetype : ∀ {t a entry}, f.archetypes.lookup t = some a → f.archetypeEntry a = some entry →
    ∀ event, (entry.archetype.typeCallbacks event).Perm (registered calls event t)

theorem Derived.reached {calls : List (Label N PolyID V CB)} (h : Derived C f f')
    (hf : Reached calls f) : Reached calls f' := by
  refine ⟨by rw [h.callbacks]; exact hf.replayed, fun ht he event => ?_⟩
  rcases h.archetype ht he with hnew | ⟨a, entry, ht', he', hsame⟩
  · rw [hnew, initType_typeCallbacks]
    exact hf.replayed event _
  · rw [hsame]
    exact hf.archetype ht' he' event

theorem addCallback_reached {calls : List (Label N PolyID V CB)} (hf : Tables f)
    (hr : Reached calls f) (types : TypeID N) (event' : PolyEvent) (callback : CB) :
    Reached (calls ++ [.addCallback types event' callback]) (addCallback f types event' callback) := by
  have hlast : ∀ event (t : TypeID N),
      registered [(.addCallback types event' callback : Label N PolyID V CB)] event t =
        single types event' callback event t := by
    intro event t
    simp only [registered, List.filterMap_cons, List.filterMap_nil, single]
    split <;> simp_all
  refine ⟨fun event t => ?_, fun ht he event => ?_⟩
  · rw [registered_append, hlast]
    exact (addCallback_replayed types event' callback event t).trans
      ((hr.replayed event t).append_right _)
  · obtain ⟨entry, hentry, heq⟩ := addCallback_archetype hf ht he
    rw [heq, registered_append, hlast]
    exact (hr.archetype ht hentry event).append_right _

theorem step_reached {calls : List (Label N PolyID V CB)} (hf : Tables f) (hr : Reached calls f)
    {l : Label N PolyID V CB} (hs : step C f l = some (some f')) : Reached (calls ++ [l]) f' := by
  -- every call but `AddCallback` derives the new archetypes
  have hderived : (∀ event t, registered [l] event t = []) → Derived C f f' →
      Reached (calls ++ [l]) f' := by
    intro hnone hd
    have hr' := hd.reached hr
    refine ⟨fun event t => ?_, fun ht he event => ?_⟩
    · rw [registered_append, hnone, List.append_nil]
      exact hr'.replayed event t
    · rw [registered_append, hnone, List.append_nil]
      exact hr'.archetype ht he event
  cases l with
  | getPoly id initialTypes fresh =>
    refine hderived (fun _ _ => rfl) ?_
    obtain ⟨hfree, heq⟩ := Option.ite_none_right_eq_some.mp hs
    exact getPoly_derived hf hfree (Option.some.inj heq)
  | setTypes id newTypeId fresh =>
    refine hderived (fun _ _ => rfl) ?_
    obtain ⟨hfree, heq⟩ := Option.ite_none_right_eq_some.mp hs
    have heq := Option.some.inj heq
    rw [setTypes, setTypesWith] at heq
    split at heq
    · cases heq
      exact .refl _
    · exact retype_derived hf hfree heq
  | addTypes id newTypes fresh =>
    refine hderived (fun _ _ => rfl) ?_
    obtain ⟨hfree, heq⟩ := Option.ite_none_right_eq_some.mp hs
    have heq := Option.some.inj heq
    rw [addTypes, addTypesWith] at heq
    split at heq
    · cases heq
      exact .refl _
    · exact retype_derived hf hfree heq
  | cleanup order =>
    refine hderived (fun _ _ => rfl) ?_
    obtain ⟨-, heq⟩ := Option.ite_none_right_eq_some.mp hs
    exact cleanup_derived order (Option.some.inj heq)
  | addCallback types event callback =>
    cases hs
    exact addCallback_reached hf hr types event callback
  | count id refcount =>
    cases hs
    exact hderived (fun _ _ => rfl)
      ((count_sameTables _ f id).derived (count_callbacks _ f id))
  | setComponent poly i v =>
    cases hs
    exact hderived (fun _ _ => rfl) (derived_frame f _ f.entries)

theorem exec_reached (ls : List (Label N PolyID V CB)) :
    ∀ {calls : List (Label N PolyID V CB)} {f : PolyFactory N PolyID V CB}
      {s : Option (PolyFactory N PolyID V CB)}, Tables f → Reached calls f →
        (factoryMachine C).exec (some f) ls = some s →
          ∃ f', s = some f' ∧ Tables f' ∧ Reached (calls ++ ls) f' := by
  induction ls with
  | nil =>
    intro calls f s hf hr hs
    cases hs
    rw [List.append_nil]
    exact ⟨f, rfl, hf, hr⟩
  | cons l ls ih =>
    intro calls f s hf hr hs
    obtain ⟨s₁, hstep, hs⟩ := Option.bind_eq_some_iff.mp hs
    obtain ⟨f₁, rfl, hf₁⟩ := step_tables hf hstep
    have hrest := ih hf₁ (step_reached hf hr hstep) hs
    rw [List.append_assoc] at hrest
    exact hrest

theorem reached_empty : Reached [] ({} : PolyFactory N PolyID V CB) :=
  ⟨fun _ _ => .refl _, fun ht => by cases ht⟩

/-- After every sequence of calls an event of a poly calls exactly the callbacks that were
registered for the event and a subset of the current types of the poly, each as often as it was
registered. -/
theorem events_exact (C : Components PolyID V) (ls : List (Label N PolyID V CB))
    {s : Option (PolyFactory N PolyID V CB)}
    (hs : (factoryMachine C).exec (some {}) ls = some s) :
    ∃ f, s = some f ∧ ∀ id poly, f.entries.lookup id = some poly → ∀ event,
      (doEvent f event poly).Perm (registered ls event poly.typeId) := by
  obtain ⟨f, rfl, hf, hr⟩ := exec_reached ls tables_empty reached_empty hs
  refine ⟨f, rfl, fun id poly hpoly event => ?_⟩
  obtain ⟨-, hlookup, -, entry, hentry, -⟩ := hf.agree.entry id poly hpoly
  rw [doEvent, hentry]
  exact hr.archetype hlookup hentry event

/- A callback is registered before and one after the archetype of a poly is created; the poly
   leaves the archetype, which is destroyed, and comes back. -/
def recreateRun : List (Label 40 Nat (Option Nat) Nat) :=
  [.addCallback 0x2#40 .beginLoad 1, .getPoly 7 0x6#40 ⟨0, 0⟩, .addCallback 0x4#40 .beginLoad 2,
    .addCallback 0x8#40 .beginLoad 3, .setTypes 7 0xA#40 ⟨1, 1⟩, .setTypes 7 0x6#40 ⟨0, 0⟩]

theorem events_exact_recreateRun : ∃ f,
    (factoryMachine parentComponents).exec (some {}) recreateRun = some (some f) ∧
      ∀ id poly, f.entries.lookup id = some poly → ∀ event,
        (doEvent f event poly).Perm (registered recreateRun event poly.typeId) := by
  obtain ⟨s, hs⟩ := Option.isSome_iff_exists.mp
    (show ((factoryMachine parentComponents).exec (some {}) recreateRun).isSome = true from by
      decide +kernel)
  obtain ⟨f, rfl, hf⟩ := events_exact parentComponents recreateRun hs
  exact ⟨f, hs, hf⟩

end CosmicArchitect.Util.PolyFactory
