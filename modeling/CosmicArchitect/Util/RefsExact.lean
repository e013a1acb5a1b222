import CosmicArchitect.Library.UnorderedErase
import CosmicArchitect.Util.RefCounts

/-!
# References are exact

Through every sequence of operations on `Ref` values and calls of the factory the reference
count of an entry is the number of live `Ref` values to it, and no count underflows.
-/

namespace CosmicArchitect.Util.PolyFactory
namespace RefState
open PolyType

variable {N : Nat} {PolyID D CB : Type} [DecidableEq PolyID] {T : ComponentTypes D}
  {s s' : RefState N PolyID D CB} {pend pend' : PolyID → Int} {refs refs' : List (Option PolyID)}
  {ref ref' : Option PolyID} {dst src : Holder PolyID} {p q : Place PolyID}

/-! ### Lists of `Ref` values -/

theorem reduceOption_cons (ref : Option PolyID) (refs : List (Option PolyID)) (x : PolyID) :
    (ref :: refs).reduceOption.count x = ref.toList.count x + refs.reduceOption.count x := by
  cases ref with
  | none => rw [List.reduceOption_cons_of_none, Option.toList_none, List.count_nil, Nat.zero_add]
  | some id =>
    rw [List.reduceOption_cons_of_some, Option.toList_some, List.count_cons, List.count_singleton]
    omega

theorem reduceOption_append (refs refs' : List (Option PolyID)) (x : PolyID) :
    (refs ++ refs').reduceOption.count x =
      refs.reduceOption.count x + refs'.reduceOption.count x := by
  rw [List.reduceOption_append, List.count_append]

theorem reduceOption_set (ref' : Option PolyID) (x : PolyID) : ∀ {refs : List (Option PolyID)} {k : Nat},
    refs[k]? = some ref → (refs.set k ref').reduceOption.count x + ref.toList.count x =
      refs.reduceOption.count x + ref'.toList.count x := by
  intro refs
  induction refs with
  | nil => exact fun h => (by cases h)
  | cons r refs ih =>
    intro k h
    cases k with
    | zero =>
      rw [List.getElem?_cons_zero, Option.some_inj] at h
      rw [List.set_cons_zero, reduceOption_cons, reduceOption_cons, h]
      omega
    | succ k =>
      rw [List.getElem?_cons_succ] at h
      have hk := ih h
      rw [List.set_cons_succ, reduceOption_cons, reduceOption_cons]
      omega

theorem flatten_set (refs' : List (Option PolyID)) (x : PolyID) : ∀ {vectors : List (List (Option PolyID))} {v : Nat},
    vectors[v]? = some refs → (vectors.set v refs').flatten.reduceOption.count x +
      refs.reduceOption.count x = vectors.flatten.reduceOption.count x +
        refs'.reduceOption.count x := by
  intro vectors
  induction vectors with
  | nil => exact fun h => (by cases h)
  | cons r vectors ih =>
    intro v h
    cases v with
    | zero =>
      rw [List.getElem?_cons_zero, Option.some_inj] at h
      rw [List.set_cons_zero, List.flatten_cons, List.flatten_cons, reduceOption_append,
        reduceOption_append, h]
      omega
    | succ v =>
      rw [List.getElem?_cons_succ] at h
      have hv := ih h
      rw [List.set_cons_succ, List.flatten_cons, List.flatten_cons, reduceOption_append,
        reduceOption_append]
      omega

/-! ### Single instructions -/

/-- The lists after a `Ref` was written. -/
def setRef (lists : Holder PolyID → Option (List (Option PolyID))) (p : Place PolyID)
    (ref : Option PolyID) : Holder PolyID → Option (List (Option PolyID)) :=
  Function.update lists p.1 ((lists p.1).map fun refs => refs.set p.2 ref)

theorem setRef_isSome {lists : Holder PolyID → Option (List (Option PolyID))} {d : Holder PolyID} :
    (setRef lists p ref d).isSome = (lists d).isSome := by
  unfold setRef
  by_cases hd : d = p.1
  · rw [hd, Function.update_self, Option.isSome_map]
  · rw [Function.update_of_ne hd]

/-- The counts are those of the live `Ref` values and of what an operation has in hand. -/
def Balanced (T : ComponentTypes D) (s : RefState N PolyID D CB) (pend : PolyID → Int) : Prop :=
  Exact T (fun x => (s.vectors.flatten.reduceOption.count x : Int) + pend x) s.factory

theorem Balanced.putRefs (h : Balanced T s pend) (refs' : List (Option PolyID))
    (pend' : PolyID → Int) (hr : s.refsAt dst = some refs)
    (hpend : ∀ x, pend' x + refs'.reduceOption.count x = pend x + refs.reduceOption.count x) :
    Balanced T (s.putRefs refs' dst) pend' ∧
      (s.putRefs refs' dst).refsAt = Function.update s.refsAt dst (some refs') := by
  suffices hlists : Balanced T (s.putRefs refs' dst) pend' ∧
      (s.putRefs refs' dst).refsAt dst = some refs' ∧
        ∀ d, d ≠ dst → (s.putRefs refs' dst).refsAt d = s.refsAt d from
    ⟨hlists.1, Function.eq_update_iff.mpr hlists.2⟩
  cases dst with
  | vector v =>
    have hlt : v < s.vectors.length := (List.getElem?_eq_some_iff.mp hr).1
    refine ⟨?_, List.getElem?_set_self hlt, ?_⟩
    · refine ⟨h.tables, h.placed, h.counted.congr fun x => ?_⟩
      have hset := flatten_set refs' x hr
      have hx := hpend x
      simp only [RefState.putRefs]
      omega
    · intro d hd
      cases d with
      | vector w =>
        have hne : v ≠ w := fun hc => hd (by rw [hc])
        exact List.getElem?_set_ne hne
      | component id i => rfl
  | component id i =>
    obtain ⟨⟨a, component⟩, hc, hrefs⟩ := Option.map_eq_some_iff.mp hr
    have hput : s.putRefs refs' (.component id i) =
        { s with factory := setComponent s.factory a i { component with refs := refs' } } := by
      simp only [RefState.putRefs, hc]
    obtain ⟨kinds, -, hreg⟩ := h.tables
    obtain ⟨entry, header, he, rfl, hheader, hcomponent⟩ := componentAt_eq hc
    rw [hput]
    refine ⟨?_, ?_, ?_⟩
    · refine h.setComponent hc fun x => ?_
      have hx := hpend x
      rw [← hrefs] at hx
      simp only at hx ⊢
      omega
    · simp only [refsAt, componentAt, setComponent, he, Option.bind_some, Function.update_self,
        hheader, Option.map_some]
    · intro d hd
      cases d with
      | vector w => rfl
      | component id' i' =>
        simp only [refsAt, componentAt, setComponent]
        cases he' : s.factory.entries.lookup id' with
        | none => rfl
        | some entry' =>
          simp only [Option.bind_some]
          by_cases hid : id' = id
          · subst hid
            rw [he] at he'
            cases he'
            have hne : i' ≠ i := fun hc' => hd (by rw [hc'])
            simp only [Function.update_self, hheader, Option.map_some, Option.bind_some,
              Function.update_of_ne hne]
          · have hne : entry'.header ≠ entry.header := fun hc' => hid (hreg.inj he' he hc')
            rw [Function.update_of_ne hne]

theorem Balanced.write (h : Balanced T s pend) (ref' : Option PolyID) (pend' : PolyID → Int)
    (hr : s.read p = some ref)
    (hpend : ∀ x, pend' x + ref'.toList.count x = pend x + ref.toList.count x) :
    ∃ s', s.write p ref' = some s' ∧ Balanced T s' pend' ∧ s'.refsAt = setRef s.refsAt p ref' := by
  obtain ⟨d, k⟩ := p
  obtain ⟨refs, hrefs, hk⟩ := Option.bind_eq_some_iff.mp hr
  simp only at hrefs hk
  obtain ⟨hb, hlists⟩ := h.putRefs (refs.set k ref') pend' hrefs
    (fun x => by
      have hset := reduceOption_set ref' x hk
      have hx := hpend x
      omega)
  refine ⟨_, by rw [RefState.write, hrefs, Option.map_some], hb, ?_⟩
  rw [hlists, setRef, hrefs, Option.map_some]

theorem Balanced.pushBack (h : Balanced T s pend) (ref : Option PolyID) (pend' : PolyID → Int)
    (hr : (s.refsAt dst).isSome)
    (hpend : ∀ x, pend' x + ref.toList.count x = pend x) :
    ∃ s', s.pushBack dst ref = some s' ∧ Balanced T s' pend' := by
  obtain ⟨refs, hrefs⟩ := Option.isSome_iff_exists.mp hr
  refine ⟨_, by rw [RefState.pushBack, hrefs, Option.map_some], (h.putRefs _ pend' hrefs fun x => ?_).1⟩
  have hx := hpend x
  rw [reduceOption_append, reduceOption_cons]
  have hnil : ([] : List (Option PolyID)).reduceOption.count x = 0 := rfl
  rw [hnil]
  push_cast
  omega

theorem SameTables.refsAt (hs : SameTables s.factory s'.factory) (hv : s'.vectors = s.vectors)
    (d : Holder PolyID) : s'.refsAt d = s.refsAt d := by
  cases d with
  | vector v => simp only [RefState.refsAt, hv]
  | component id i =>
    have hat := hs.headerAt id
    simp only [headerAt] at hat
    have hid := hs.entries id
    simp only [RefState.refsAt, componentAt]
    cases he : s.factory.entries.lookup id with
    | none =>
      rw [he, Option.map_none, Option.map_eq_none_iff] at hid
      rw [hid, Option.bind_none, Option.bind_none]
    | some entry =>
      rw [he, Option.map_some] at hid
      obtain ⟨entry', he', htable⟩ := Option.map_eq_some_iff.mp hid
      simp only [PolyEntry.table, Prod.mk.injEq] at htable
      rw [he', Option.bind_some, Option.bind_some, htable.2.2, hs.header]

theorem Balanced.read_live (h : Balanced T s pend) {id : PolyID} (hr : s.read p = some (some id)) :
    0 < s.vectors.flatten.reduceOption.count id + (heldRefs s.factory).count id := by
  obtain ⟨d, k⟩ := p
  obtain ⟨refs, hrefs, hk⟩ := Option.bind_eq_some_iff.mp hr
  have hmem : id ∈ refs.reduceOption := List.reduceOption_mem_iff.mpr (List.mem_of_getElem? hk)
  cases d with
  | vector v =>
    have hin : id ∈ s.vectors.flatten.reduceOption := by
      refine List.reduceOption_mem_iff.mpr (List.mem_flatten.mpr ⟨refs, List.mem_of_getElem? hrefs, ?_⟩)
      exact List.mem_of_getElem? hk
    have := List.count_pos_iff.mpr hin
    omega
  | component id' i =>
    obtain ⟨⟨a, component⟩, hc, rfl⟩ := Option.map_eq_some_iff.mp hrefs
    obtain ⟨entry, header, he, hentry, hheader, hcomponent⟩ := componentAt_eq hc
    have hi := (h.placed.component he (by rw [hentry]; exact hheader) hcomponent).1
    have hin : id ∈ heldRefs s.factory := by
      refine List.mem_flatMap.mpr ⟨id', AList.mem_keys.mp (AList.lookup_isSome.mp (by rw [he]; rfl)),
        List.mem_flatMap.mpr ⟨i, hi, ?_⟩⟩
      rw [hc, Option.map_some, Option.getD_some]
      exact hmem
    have := List.count_pos_iff.mpr hin
    omega

theorem Balanced.release (h : Balanced T s pend) (ref : Option PolyID) (pend' : PolyID → Int)
    (hlive : ∀ id ∈ ref, 0 < s.vectors.flatten.reduceOption.count id +
      (heldRefs s.factory).count id + pend id)
    (hpend : ∀ x, pend x = pend' x + ref.toList.count x) :
    ∃ s', s.release ref = some s' ∧ Balanced T s' pend' ∧ ∀ d, s'.refsAt d = s.refsAt d := by
  cases ref with
  | none =>
    refine ⟨s, rfl, ⟨h.tables, h.placed, h.counted.congr fun x => ?_⟩, fun _ => rfl⟩
    have hx := hpend x
    rw [Option.toList_none, List.count_nil] at hx
    omega
  | some id =>
    have hid := hlive id rfl
    obtain ⟨f, hsub, hexact, hs⟩ := Exact.fetchSub h id
      (fun x => (s.vectors.flatten.reduceOption.count x : Int) + pend' x) (by omega) (fun x => by
        have hx := hpend x
        rw [Option.toList_some] at hx
        omega)
    exact ⟨{ s with factory := f }, by rw [RefState.release, hsub, Option.map_some], hexact,
      SameTables.refsAt hs rfl⟩

theorem Balanced.retain (h : Balanced T s pend) (ref : Option PolyID) (pend' : PolyID → Int)
    (hlive : ∀ id ∈ ref, (s.factory.entries.lookup id).isSome)
    (hpend : ∀ x, pend' x = pend x + ref.toList.count x) :
    ∃ s', s.retain ref = some s' ∧ Balanced T s' pend' ∧ ∀ d, s'.refsAt d = s.refsAt d := by
  cases ref with
  | none =>
    refine ⟨s, rfl, ⟨h.tables, h.placed, h.counted.congr fun x => ?_⟩, fun _ => rfl⟩
    have hx := hpend x
    rw [Option.toList_none, List.count_nil] at hx
    omega
  | some id =>
    obtain ⟨f, hadd, hexact, hs⟩ := Exact.fetchAdd h id
      (fun x => (s.vectors.flatten.reduceOption.count x : Int) + pend' x) (hlive id rfl) (fun x => by
        have hx := hpend x
        rw [Option.toList_some] at hx
        omega)
    exact ⟨{ s with factory := f }, by rw [RefState.retain, hadd, Option.map_some], hexact,
      SameTables.refsAt hs rfl⟩

/-- Writing to `p` what lies in `q` leaves `q` as it is. -/
theorem read_setRef (hp : s.read p = some ref) (hq : s.read q = some ref') :
    (setRef s.refsAt p ref' q.1).bind (fun refs => refs[q.2]?) = some ref' := by
  obtain ⟨d, k⟩ := p
  obtain ⟨d', k'⟩ := q
  obtain ⟨refs, hrefs, hk⟩ := Option.bind_eq_some_iff.mp hp
  simp only at hrefs hk
  by_cases hd : d' = d
  · subst hd
    rw [read, hrefs, Option.bind_some] at hq
    rw [setRef, Function.update_self, hrefs, Option.map_some, Option.bind_some, List.getElem?_set]
    split
    · rw [if_pos (List.getElem?_eq_some_iff.mp hk).1]
    · exact hq
  · rw [setRef, Function.update_of_ne hd]
    exact hq

theorem read_congr (h : ∀ d, s'.refsAt d = s.refsAt d) (p : Place PolyID) : s'.read p = s.read p := by
  rw [read, read, h]

/-! ### Operations on `Ref` values -/

/-- Nothing is in hand between two operations. -/
abbrev Settled (T : ComponentTypes D) (s : RefState N PolyID D CB) : Prop := Balanced T s fun _ => 0

theorem Settled.live_exists (h : Settled T s) {id : PolyID} (hr : s.read p = some (some id)) :
    (s.factory.entries.lookup id).isSome := by
  have hlive := h.read_live hr
  refine Exact.exists h ?_
  simp only
  omega

theorem Settled.construct (h : Settled T s) (ref : Option PolyID) (hdst : (s.refsAt dst).isSome)
    (hweak : ∀ id ∈ ref, (s.factory.entries.lookup id).isSome) :
    ∃ s', s.construct dst ref = some s' ∧ Settled T s' := by
  obtain ⟨s₁, hretain, h₁, hat⟩ := h.retain ref (fun x => ref.toList.count x) hweak
    fun x => by omega
  obtain ⟨s', hpush, h'⟩ := h₁.pushBack ref (fun _ => 0)
    (by rw [hat]; exact hdst) fun x => by omega
  exact ⟨s', by rw [RefState.construct, hretain]; exact hpush, h'⟩

theorem Settled.moveConstruct (h : Settled T s) (hdst : (s.refsAt dst).isSome)
    (hsrc : s.read p = some ref) : ∃ s', s.moveConstruct dst p = some s' ∧ Settled T s' := by
  obtain ⟨s₁, hwrite, h₁, hlists⟩ := h.write none
    (fun x => ref.toList.count x) hsrc fun x => by
      rw [Option.toList_none, List.count_nil]
      omega
  obtain ⟨s', hpush, h'⟩ := h₁.pushBack ref (fun _ => 0)
    (by rw [hlists, setRef_isSome]; exact hdst) fun x => by omega
  refine ⟨s', ?_, h'⟩
  rw [RefState.moveConstruct, hsrc]
  simp only [Option.bind_eq_bind, Option.bind_some, hwrite, hpush]

/-- Move assignment releases the old reference, also when a `Ref` is moved to itself. -/
theorem Balanced.moveAssign (h : Balanced T s pend) (hpend : ∀ x, 0 ≤ pend x)
    (hdst : s.read p = some ref) (hsrc : s.read q = some ref') :
    ∃ s', s.moveAssign p q = some s' ∧ Balanced T s' pend ∧
      s'.refsAt = setRef (setRef s.refsAt p ref') q none := by
  obtain ⟨s₁, hrelease, h₁, hat₁⟩ := h.release ref
    (fun x => pend x - (ref.toList.count x : Int))
    (fun id hid => by
      rw [Option.mem_def] at hid
      rw [hid] at hdst
      have hlive := h.read_live hdst
      have hid := hpend id
      omega) fun x => by omega
  have hdst₁ : s₁.read p = some ref := by rw [read_congr hat₁, hdst]
  have hsrc₁ : s₁.read q = some ref' := by rw [read_congr hat₁, hsrc]
  obtain ⟨s₂, hwrite₂, h₂, hlists₂⟩ := h₁.write ref'
    (fun x => pend x - (ref'.toList.count x : Int)) hdst₁ fun x => by omega
  -- the source still holds what it held
  have hsrc₂ : s₂.read q = some ref' := by
    rw [read, hlists₂]
    exact read_setRef hdst₁ hsrc₁
  obtain ⟨s', hwrite, h', hlists⟩ := h₂.write none pend hsrc₂
    fun x => by
      rw [Option.toList_none, List.count_nil]
      omega
  refine ⟨s', ?_, h', ?_⟩
  · rw [RefState.moveAssign, hdst]
    simp only [Option.bind_eq_bind, Option.bind_some, hrelease, hsrc₁, hwrite₂, hwrite]
  · rw [hlists, hlists₂, funext hat₁]

theorem Settled.reference (h : Settled T s) (hdst : (s.refsAt dst).isSome)
    (hsrc : s.read p = some ref) : ∃ s', s.reference dst p = some s' ∧ Settled T s' := by
  obtain ⟨s', hconstruct, h'⟩ := h.construct ref hdst fun id hid => by
    rw [Option.mem_def] at hid
    rw [hid] at hsrc
    exact h.live_exists hsrc
  exact ⟨s', by rw [RefState.reference, hsrc]; exact hconstruct, h'⟩

theorem Balanced.popBack (h : Balanced T s pend) (hpend : ∀ x, 0 ≤ pend x)
    (hsrc : s.refsAt src = some refs) (hlast : refs.getLast? = some ref) :
    ∃ s', s.popBack src = some s' ∧ Balanced T s' pend ∧
      s'.refsAt = Function.update s.refsAt src (some refs.dropLast) := by
  obtain ⟨s₁, hrelease, h₁, hat⟩ := h.release ref
    (fun x => pend x - (ref.toList.count x : Int))
    (fun id hid => by
      rw [Option.mem_def] at hid
      have hread : s.read (src, refs.length - 1) = some (some id) := by
        rw [read, hsrc, Option.bind_some, ← List.getLast?_eq_getElem?, hlast, hid]
      have hlive := h.read_live hread
      have hid := hpend id
      omega) fun x => by omega
  have hshort : ∀ x, pend x + refs.dropLast.reduceOption.count x =
      pend x - (ref.toList.count x : Int) + refs.reduceOption.count x := by
    intro x
    obtain ⟨init, rfl⟩ := List.getLast?_eq_some_iff.mp hlast
    have hnil : ([] : List (Option PolyID)).reduceOption.count x = 0 := rfl
    rw [List.dropLast_concat, reduceOption_append, reduceOption_cons, hnil]
    push_cast
    omega
  obtain ⟨h', hlists⟩ := h₁.putRefs refs.dropLast pend (by rw [hat, hsrc]) hshort
  refine ⟨_, ?_, h', by rw [hlists, funext hat]⟩
  rw [RefState.popBack, hsrc]
  simp only [Option.bind_eq_bind, Option.bind_some, hlast, hrelease]

theorem Balanced.unorderedEraseIt (h : Balanced T s pend) (hpend : ∀ x, 0 ≤ pend x)
    (hsrc : s.refsAt src = some refs) {it : Nat} (hit : it < refs.length) :
    ∃ s', s.unorderedEraseIt src it = some s' ∧ Balanced T s' pend ∧
      s'.refsAt = Function.update s.refsAt src (some (Library.unorderedEraseIt refs it)) := by
  have hread : ∀ {k} (hk : k < refs.length), s.read (src, k) = some refs[k] := by
    intro k hk
    rw [read, hsrc, Option.bind_some]
    exact List.getElem?_eq_getElem hk
  have hback : refs.length - 1 < refs.length := by omega
  obtain ⟨s₁, hmove, h₁, hlists₁⟩ := h.moveAssign hpend (hread hit) (hread hback)
  have hsrc₁ : s₁.refsAt src =
      some ((refs.set it refs[refs.length - 1]).set (refs.length - 1) none) := by
    rw [hlists₁]
    simp only [setRef, Function.update_self, hsrc, Option.map_some]
  have hlast₁ : ((refs.set it refs[refs.length - 1]).set (refs.length - 1) none).getLast? =
      some none := by
    rw [List.getLast?_eq_getElem?, List.length_set, List.length_set]
    exact List.getElem?_set_self (by rw [List.length_set]; exact hback)
  obtain ⟨s', hpop, h', hlists⟩ := h₁.popBack hpend hsrc₁ hlast₁
  refine ⟨s', ?_, h', ?_⟩
  · rw [RefState.unorderedEraseIt, hsrc]
    simp only [Option.bind_eq_bind, Option.bind_some, hmove, hpop]
  · have hlast : refs.getLast? = some refs[refs.length - 1] := by
      rw [List.getLast?_eq_getElem?]
      exact List.getElem?_eq_getElem hback
    rw [hlists, hlists₁]
    simp only [setRef, Function.update_idem, Library.unorderedEraseIt, hlast]
    rw [List.dropLast_eq_take, List.dropLast_eq_take, List.length_set, List.length_set,
      List.take_set_of_le (Nat.le_refl _)]

theorem Settled.getPolyRef (h : Settled T s) (hdst : (s.refsAt dst).isSome) {fresh : Fresh}
    (hfree : IsFree s.factory fresh) (id : PolyID) (initialTypes : TypeID N) :
    ∃ s', getPolyRef T s dst id initialTypes fresh = some s' ∧ Settled T s' := by
  obtain ⟨f, hget, hexact, hkept⟩ := Exact.getPoly h id (fun x =>
    (s.vectors.flatten.reduceOption.count x : Int) + [id].count x) hfree initialTypes
    fun x => by
      simp only
      omega
  have hbalanced : Balanced T { s with factory := f } fun x => [id].count x := hexact
  have hdst' : (RefState.refsAt { s with factory := f } dst).isSome := by
    cases dst with
    | vector v => exact hdst
    | component id' i =>
      obtain ⟨refs, hrefs⟩ := Option.isSome_iff_exists.mp hdst
      obtain ⟨⟨a, component⟩, hc, -⟩ := Option.map_eq_some_iff.mp hrefs
      obtain ⟨entry, header, he, rfl, hheader, hcomponent⟩ := componentAt_eq hc
      have hat := hkept id' (AList.lookup_isSome.mp (by rw [he]; rfl))
      rw [headerAt, headerAt, he, Option.bind_some, hheader] at hat
      obtain ⟨entry', he', hheader'⟩ := Option.bind_eq_some_iff.mp hat
      simp only [RefState.refsAt, componentAt, he', Option.bind_some, hheader', hcomponent,
        Option.map_some, Option.isSome_some]
  obtain ⟨s', hpush, h'⟩ := hbalanced.pushBack (some id) (fun _ => 0) hdst' fun x => by
    rw [Option.toList_some]
    omega
  refine ⟨s', ?_, h'⟩
  rw [RefState.getPolyRef, hget]
  exact hpush

/-! ### Runs -/

theorem Settled.call (h : Settled T s) {l : Label N PolyID CB} (hl : Possible s l) :
    ∃ s', call T s l = some s' ∧ Settled T s' := by
  have hext : ∀ x, 0 ≤ (s.vectors.flatten.reduceOption.count x : Int) + 0 := fun x => by omega
  -- `SetTypes` and `AddTypes` move an entry that exists
  have hretype : ∀ {id entry fresh} {t : TypeID N}, IsFree s.factory fresh →
      s.factory.entries.lookup id = some entry → Includes t (headerID N) → ∃ s',
        (retypeWith T.components (destructChecked T.components) fresh s.factory id entry t).map
          (fun f => { s with factory := f }) = some s' ∧ Settled T s' := by
    intro id entry fresh t hfree he hinc
    obtain ⟨f, hf, hexact⟩ := Exact.retypeWith h hext hfree he hinc
    exact ⟨{ s with factory := f }, by rw [hf, Option.map_some], hexact⟩
  cases l with
  | newVector =>
    refine ⟨_, rfl, h.tables, h.placed, h.counted.congr fun x => ?_⟩
    rw [List.flatten_append, reduceOption_append]
    rfl
  | construct dst weakRef => exact h.construct weakRef hl.1 hl.2
  | moveConstruct dst src =>
    obtain ⟨ref, href⟩ := Option.isSome_iff_exists.mp hl.2
    exact h.moveConstruct hl.1 href
  | moveAssign dst src =>
    obtain ⟨ref, href⟩ := Option.isSome_iff_exists.mp hl.1
    obtain ⟨ref', href'⟩ := Option.isSome_iff_exists.mp hl.2
    obtain ⟨s', hs', h', -⟩ := h.moveAssign (fun _ => Int.le_refl 0) href href'
    exact ⟨s', hs', h'⟩
  | reference dst src =>
    obtain ⟨ref, href⟩ := Option.isSome_iff_exists.mp hl.2
    exact h.reference hl.1 href
  | popBack src =>
    obtain ⟨ref, href⟩ := Option.isSome_iff_exists.mp hl
    obtain ⟨refs, hrefs, hlast⟩ := Option.bind_eq_some_iff.mp href
    obtain ⟨s', hs', h', -⟩ := h.popBack (fun _ => Int.le_refl 0) hrefs hlast
    exact ⟨s', hs', h'⟩
  | unorderedEraseIt src it =>
    obtain ⟨ref, href⟩ := Option.isSome_iff_exists.mp hl
    obtain ⟨refs, hrefs, hit⟩ := Option.bind_eq_some_iff.mp href
    obtain ⟨s', hs', h', -⟩ := h.unorderedEraseIt (fun _ => Int.le_refl 0) hrefs
      (List.getElem?_eq_some_iff.mp hit).1
    exact ⟨s', hs', h'⟩
  | getPoly dst id initialTypes fresh => exact h.getPolyRef hl.1 hl.2 id initialTypes
  | setTypes id newTypeId fresh =>
    simp only [RefState.call, setTypesWith]
    cases he : s.factory.entries.lookup id with
    | none => exact ⟨s, rfl, h⟩
    | some entry => exact hretype hl he (includes_or newTypeId (headerID N))
  | addTypes id newTypes fresh =>
    simp only [RefState.call, addTypesWith]
    cases he : s.factory.entries.lookup id with
    | none => exact ⟨s, rfl, h⟩
    | some entry =>
      have hinc : Includes entry.typeId (headerID N) := by
        obtain ⟨kinds, hhost, hreg⟩ := h.tables
        exact (hhost.header (hreg.entry he).1).1
      exact hretype hl he (hinc.or newTypes)
  | cleanup order =>
    obtain ⟨f, hf, hexact⟩ := Exact.cleanupWith hext order h
    exact ⟨{ s with factory := f }, by rw [RefState.call, hf, Option.map_some], hexact⟩
  | addCallback types event callback =>
    exact ⟨_, rfl, Exact.addCallback h types event callback⟩

theorem settled_of_reach {o : Option (RefState N PolyID D CB)} (ho : (refMachine T).Reachable o) :
    ∃ s, o = some s ∧ Settled T s := by
  refine ho.invariant (I := fun o => ∃ s, o = some s ∧ Settled T s) ?_ ?_
  · intro o hinit
    refine ⟨{}, hinit, tables_empty, ⟨fun ht => (by cases ht), fun he => (by cases he)⟩, fun id => ?_⟩
    exact ⟨fun entry he => (by cases he), fun _ => rfl⟩
  · intro o l o' _ hinv _ hstep
    obtain ⟨s, rfl, h⟩ := hinv
    obtain ⟨hl, heq⟩ := Option.ite_none_right_eq_some.mp hstep
    obtain ⟨s', hcall, h'⟩ := h.call hl
    exact ⟨s', by rw [← Option.some.inj heq, hcall], h'⟩

/-! ### The counts in the terms of the source -/

/-- The reference count of each entry is the number of live references to it, and references
are to entries that exist. -/
structure RefsExact (s : RefState N PolyID D CB) : Prop where
  refcount : ∀ id entry, s.factory.entries.lookup id = some entry →
    entry.refcount = (liveRefs s).count id
  denotes : ∀ id ∈ liveRefs s, (s.factory.entries.lookup id).isSome

/-- When `Cleanup` erases an entry no live reference is to it. -/
def CleanupSafe (T : ComponentTypes D) (s : RefState N PolyID D CB) : Prop :=
  ∀ visited id rest, (visited ++ id :: rest).Perm s.factory.entries.keys →
    ∀ f f', cleanupWith (destructChecked T.components) s.factory visited = some f →
      cleanupEntryWith (destructChecked T.components) f id = some f' →
        ∀ k, (f.entries.lookup k).isSome → f'.entries.lookup k = none →
          k ∉ liveRefs { s with factory := f }

theorem Settled.refsExact (h : Settled T s) : RefsExact s := by
  have hcount : ∀ id, ((liveRefs s).count id : Int) =
      (s.vectors.flatten.reduceOption.count id : Int) + 0 + (heldRefs s.factory).count id := by
    intro id
    rw [liveRefs, List.count_append]
    push_cast
    omega
  refine ⟨fun id entry he => ?_, fun id hid => Exact.exists h ?_⟩
  · have hrefcount := (h.counted id).1 entry he
    simp only at hrefcount
    rw [← hcount] at hrefcount
    exact_mod_cast hrefcount
  · have hpos := List.count_pos_iff.mpr hid
    rw [← hcount]
    exact_mod_cast hpos

theorem Settled.cleanupSafe (h : Settled T s) : CleanupSafe T s := by
  have hext : ∀ x, 0 ≤ (s.vectors.flatten.reduceOption.count x : Int) + 0 := fun x => by omega
  intro visited id rest _ f f' hvisited hentry k hk hgone
  obtain ⟨f₁, hf₁, hexact⟩ := Exact.cleanupWith hext visited h
  cases hvisited.symm.trans hf₁
  obtain ⟨f₂, hf₂, -, herased⟩ := hexact.cleanupEntryWith hext id
  cases hentry.symm.trans hf₂
  obtain ⟨rfl, hvectors, hheld⟩ := herased k hgone hk
  have hvectors : (s.vectors.flatten.reduceOption.count k : Int) + 0 = 0 := hvectors
  rw [liveRefs, List.mem_append, not_or]
  refine ⟨List.count_eq_zero.mp ?_, List.count_eq_zero.mp hheld⟩
  show s.vectors.flatten.reduceOption.count k = 0
  omega

/-- In every run the counts are exact, no operation underflows one or follows a bad pointer, and
`Cleanup` destroys only what nothing refers to. -/
theorem refs_exact (T : ComponentTypes D) {o : Option (RefState N PolyID D CB)}
    (ho : (refMachine T).Reachable o) : ∃ s, o = some s ∧ RefsExact s ∧ CleanupSafe T s := by
  obtain ⟨s, rfl, h⟩ := settled_of_reach ho
  exact ⟨s, rfl, h.refsExact, h.cleanupSafe⟩

/-- Component type 3 has one `Ref` member. -/
def parentTypes : ComponentTypes Unit where
  size _ := 8
  members i := if i = 3 then 1 else 0
  data _ := ()

/- A poly takes a reference to another as its parent, which the self-move of
   `unordered_erase_it` leaves as the only one; both polys go when the child has no reference. -/
def parentRun : List (Label 40 Nat Nat) :=
  [.newVector, .getPoly (.vector 0) 7 0xA#40 ⟨0, 0⟩, .getPoly (.vector 0) 8 0x2#40 ⟨1, 1⟩,
    .construct (.vector 0) (some 8), .moveAssign (.component 7 3, 0) (.vector 0, 2),
    .unorderedEraseIt (.vector 0) 2, .unorderedEraseIt (.vector 0) 1, .addTypes 7 0x4#40 ⟨2, 2⟩,
    .unorderedEraseIt (.vector 0) 0, .cleanup [8, 7], .cleanup [8]]

theorem refs_exact_parentRun : ∃ s : RefState 40 Nat Unit Nat,
    (refMachine parentTypes).exec (some {}) parentRun = some (some s) ∧ RefsExact s ∧
      CleanupSafe parentTypes s := by
  obtain ⟨o, ho⟩ := Option.isSome_iff_exists.mp
    (show ((refMachine parentTypes).exec (some ({} : RefState 40 Nat Unit Nat)) parentRun).isSome =
      true from by decide +kernel)
  obtain ⟨s, rfl, hs⟩ := refs_exact parentTypes (Library.Machine.reachable_of_exec rfl ho)
  exact ⟨s, ho, hs⟩

end RefState
end CosmicArchitect.Util.PolyFactory
