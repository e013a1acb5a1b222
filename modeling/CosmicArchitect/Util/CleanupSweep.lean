import CosmicArchitect.Library.Sweep
import CosmicArchitect.Util.RefsExact

/-!
# What `Cleanup` leaves (PolyFactory.h)

`Cleanup` makes one pass over the entries. A poly that goes gives back what its components hold;
entries that were passed by then are not looked at again.
-/

namespace CosmicArchitect.Util.PolyFactory
open PolyType RefState Library

variable {N : Nat} {PolyID D CB : Type} [DecidableEq PolyID] {T : ComponentTypes D}
  {f f' f₀ : RefFactory N PolyID D CB} {ext : PolyID → Int} {order visited rest : List PolyID}
  {x y k : PolyID}

/-- `GetCount` (lines 420-425) -/
def getCount (f : RefFactory N PolyID D CB) : Nat := f.entries.entries.length

theorem getCount_eq_zero (f : RefFactory N PolyID D CB) : getCount f = 0 ↔ ∀ x, x ∉ f.entries := by
  rw [getCount, List.length_eq_zero_iff]
  constructor
  · intro hnil x hx
    rw [AList.mem_keys, AList.keys, List.keys, hnil] at hx
    cases hx
  · intro hnone
    apply List.eq_nil_iff_forall_not_mem.mpr
    intro e he
    exact hnone e.1 (AList.mem_keys.mpr (List.mem_keys_of_mem he))

/-- A component of the poly `y` holds a reference to `x`. -/
def Holds (f : RefFactory N PolyID D CB) (y x : PolyID) : Prop := x ∈ polyRefs f y

/-- An entry to which no reference outside of components is. -/
def Inner (f : RefFactory N PolyID D CB) (ext : PolyID → Int) (x : PolyID) : Prop :=
  x ∈ f.entries ∧ ext x = 0

theorem Holds.entry (h : Holds f y x) : y ∈ f.entries := by
  obtain ⟨i, -, hx⟩ := List.mem_flatMap.mp h
  cases hc : componentAt f y i with
  | none =>
    rw [hc] at hx
    cases hx
  | some c =>
    obtain ⟨h, component⟩ := c
    obtain ⟨entry, -, he, -⟩ := componentAt_eq hc
    exact AList.lookup_isSome.mp (by rw [he]; rfl)

theorem refcount_eq_zero_iff (h : Exact T ext f) (hext : ∀ x, 0 ≤ ext x) {entry : PolyEntry N}
    (he : f.entries.lookup x = some entry) :
    entry.refcount = 0 ↔ ext x = 0 ∧ ∀ y, Holds f y x → y ∉ f.entries := by
  have hcount : (entry.refcount : Int) = ext x + (heldRefs f).count x := (h.counted x).1 entry he
  have hnonneg := hext x
  have hheld : (heldRefs f).count x = 0 ↔ ∀ y, Holds f y x → y ∉ f.entries := by
    rw [List.count_eq_zero, heldRefs, List.mem_flatMap]
    constructor
    · intro hnone y hy hin
      exact hnone ⟨y, AList.mem_keys.mp hin, hy⟩
    · intro hnone hsome
      obtain ⟨y, hin, hy⟩ := hsome
      exact hnone y hy (AList.mem_keys.mpr hin)
  rw [← hheld]
  omega

/-- The factory after `Cleanup` has visited a part of its entries. -/
structure Passed (f₀ : RefFactory N PolyID D CB) (ext : PolyID → Int) (order visited : List PolyID)
    (f : RefFactory N PolyID D CB) : Prop where
  entries : ∀ k, k ∈ f.entries ↔
    k ∈ f₀.entries ∧ ¬ (k ∈ visited ∧ Swept (Inner f₀ ext) (Holds f₀) order k)
  refs : ∀ k, k ∈ f.entries → polyRefs f k = polyRefs f₀ k

theorem Passed.gone_iff (hp : Passed f₀ ext order visited f) :
    (∀ y, Holds f y x → y ∉ f.entries) ↔
      ∀ y, Holds f₀ y x → y ∈ visited ∧ Swept (Inner f₀ ext) (Holds f₀) order y := by
  constructor
  · intro h y hy
    by_contra hnot
    have hin : y ∈ f.entries := (hp.entries y).mpr ⟨hy.entry, hnot⟩
    refine h y ?_ hin
    rw [Holds, hp.refs y hin]
    exact hy
  · intro h y hy hin
    rw [Holds, hp.refs y hin] at hy
    exact ((hp.entries y).mp hin).2 (h y hy)

theorem Passed.swept_iff (hp : Passed f₀ ext order visited f) (h : Exact T ext f)
    (hext : ∀ x, 0 ≤ ext x) (hnodup : order.Nodup) (ho : order = visited ++ x :: rest)
    (hx : x ∈ f₀.entries) {entry : PolyEntry N} (he : f.entries.lookup x = some entry) :
    entry.refcount = 0 ↔ Swept (Inner f₀ ext) (Holds f₀) order x := by
  rw [refcount_eq_zero_iff h hext he, hp.gone_iff]
  constructor
  · intro hzero
    obtain ⟨hfree, hgone⟩ := hzero
    apply Swept.intro x ⟨hx, hfree⟩
    · intro y hy
      exact (hgone y hy).2
    · intro y hy
      exact (before_iff hnodup ho).mpr (hgone y hy).1
  · intro hswept
    cases hswept with
    | intro _ hfree hheld hfirst =>
      exact ⟨hfree.2, fun y hy => ⟨(before_iff hnodup ho).mp (hfirst y hy), hheld y hy⟩⟩

/-- One iteration takes the entry if it is swept. -/
theorem Passed.step (hp : Passed f₀ ext order visited f) (h : Exact T ext f)
    (hext : ∀ x, 0 ≤ ext x) (hnodup : order.Nodup) (ho : order = visited ++ x :: rest)
    (hx : x ∈ f₀.entries) :
    ∃ f', cleanupEntryWith (destructChecked T.components) f x = some f' ∧ Exact T ext f' ∧
      Passed f₀ ext order (visited ++ [x]) f' := by
  have hvisited : x ∉ visited := by
    rw [ho] at hnodup
    exact fun hin => (List.nodup_append.mp hnodup).2.2 x hin x List.mem_cons_self rfl
  have hin : x ∈ f.entries := (hp.entries x).mpr ⟨hx, fun hc => hvisited hc.1⟩
  obtain ⟨entry, he⟩ := Option.isSome_iff_exists.mp (AList.lookup_isSome.mpr hin)
  have hswept := hp.swept_iff h hext hnodup ho hx he
  by_cases hzero : entry.refcount = 0
  · obtain ⟨f', hf', h', hgone, hothers⟩ := h.cleanupEntryWith_zero hext he hzero
    refine ⟨f', hf', h', ?_, ?_⟩
    · intro k
      by_cases hk : k = x
      · subst hk
        rw [← AList.lookup_isSome, hgone]
        constructor
        · intro hc
          cases hc
        · intro hc
          exact absurd ⟨List.mem_append_right visited List.mem_cons_self, hswept.mp hzero⟩ hc.2
      · have htable := congrArg Option.isSome (hothers k hk).1
        rw [Option.isSome_map, Option.isSome_map] at htable
        rw [← AList.lookup_isSome, htable, AList.lookup_isSome, hp.entries k, List.mem_append,
          List.mem_singleton, or_iff_left hk]
    · intro k hk
      have hkx : k ≠ x := by
        intro hc
        rw [hc, ← AList.lookup_isSome, hgone] at hk
        cases hk
      have htable := congrArg Option.isSome (hothers k hkx).1
      rw [Option.isSome_map, Option.isSome_map] at htable
      rw [← AList.lookup_isSome, htable, AList.lookup_isSome] at hk
      rw [polyRefs_congr (hothers k hkx).2, hp.refs k hk]
  · refine ⟨f, ?_, h, ?_, hp.refs⟩
    · simp only [cleanupEntryWith, he, if_neg hzero]
    · intro k
      rw [hp.entries k, List.mem_append, List.mem_singleton]
      by_cases hk : k = x
      · subst hk
        have hkept : ¬ Swept (Inner f₀ ext) (Holds f₀) order k := fun hc => hzero (hswept.mpr hc)
        simp [hkept]
      · rw [or_iff_left hk]

theorem Passed.run (hext : ∀ x, 0 ≤ ext x) (hnodup : order.Nodup)
    (hall : ∀ x ∈ order, x ∈ f₀.entries) : ∀ {f visited}, order = visited ++ rest →
      Passed f₀ ext order visited f → Exact T ext f →
        ∃ f', cleanupWith (destructChecked T.components) f rest = some f' ∧ Exact T ext f' ∧
          Passed f₀ ext order order f' := by
  induction rest with
  | nil =>
    intro f visited ho hp h
    rw [List.append_nil] at ho
    rw [← ho] at hp
    exact ⟨f, rfl, h, hp⟩
  | cons x rest ih =>
    intro f visited ho hp h
    have hx : x ∈ f₀.entries := hall x (by
      rw [ho]
      exact List.mem_append_right visited List.mem_cons_self)
    obtain ⟨f₁, hf₁, h₁, hp₁⟩ := hp.step h hext hnodup ho hx
    obtain ⟨f', hf', h', hp'⟩ := ih (by rw [ho, List.append_assoc]; rfl) hp₁ h₁
    exact ⟨f', by rw [cleanupWith, hf₁, Option.bind_some, hf'], h', hp'⟩

theorem Exact.cleanup_passed (h : Exact T ext f) (hext : ∀ x, 0 ≤ ext x)
    (horder : order.Perm f.entries.keys) :
    ∃ f', PolyFactory.cleanupWith (destructChecked T.components) f order = some f' ∧
      Exact T ext f' ∧ Passed f ext order order f' := by
  have hmem : ∀ x, x ∈ order ↔ x ∈ f.entries := fun x => horder.mem_iff.trans AList.mem_keys.symm
  have hnone : Passed f ext order [] f := ⟨fun k => by simp, fun _ _ => rfl⟩
  exact Passed.run hext (horder.nodup_iff.mpr f.entries.keys_nodup) (fun x hx => (hmem x).mp hx)
    rfl hnone h

/-- What could go after a pass, by the references before it. -/
theorem Passed.collected_iff (hp : Passed f₀ ext order order f) (h : Exact T ext f)
    (hext : ∀ x, 0 ≤ ext x) (hmem : ∀ x, x ∈ order ↔ x ∈ f₀.entries) :
    (∀ x entry, f.entries.lookup x = some entry → entry.refcount ≠ 0) ↔
      ∀ x, Inner f₀ ext x → (∀ y, Holds f₀ y x → Swept (Inner f₀ ext) (Holds f₀) order y) →
        Swept (Inner f₀ ext) (Holds f₀) order x := by
  have hgone : ∀ x, (∀ y, Holds f y x → y ∉ f.entries) ↔
      ∀ y, Holds f₀ y x → Swept (Inner f₀ ext) (Holds f₀) order y := by
    intro x
    rw [hp.gone_iff]
    exact ⟨fun hy y hyx => (hy y hyx).2, fun hy y hyx => ⟨(hmem y).mpr hyx.entry, hy y hyx⟩⟩
  constructor
  · intro hnone x hinner hheld
    by_contra hkept
    have hin : x ∈ f.entries := (hp.entries x).mpr ⟨hinner.1, fun hc => hkept hc.2⟩
    obtain ⟨entry, he⟩ := Option.isSome_iff_exists.mp (AList.lookup_isSome.mpr hin)
    exact hnone x entry he
      ((refcount_eq_zero_iff h hext he).mpr ⟨hinner.2, (hgone x).mpr hheld⟩)
  · intro hclosed x entry he hzero
    have hin : x ∈ f₀.entries ∧ _ := (hp.entries x).mp (AList.lookup_isSome.mp (by rw [he]; rfl))
    obtain ⟨hfree, hheld⟩ := (refcount_eq_zero_iff h hext he).mp hzero
    exact hin.2 ⟨(hmem x).mpr hin.1, hclosed x ⟨hin.1, hfree⟩ ((hgone x).mp hheld)⟩

namespace RefState
variable {s : RefState N PolyID D CB}

/-- The `Ref` values outside of components. -/
def outsideRefs (s : RefState N PolyID D CB) (x : PolyID) : Nat :=
  s.vectors.flatten.reduceOption.count x

/-- What `Cleanup` could destroy in the end: no reference to it lies outside of components, and
every poly that holds one could be destroyed. -/
def CanGo (s : RefState N PolyID D CB) : PolyID → Prop :=
  Collectable (fun x => x ∈ s.factory.entries ∧ outsideRefs s x = 0) (Holds s.factory)

/-- `Cleanup` leaves no entry with a count of zero if and only if it visits the holders of all
that can go first; and this decides whether a factory without outside references and cycles is
emptied. -/
theorem cleanup_fixpoint_iff (T : ComponentTypes D) (hs : (refMachine T).Reachable (some s))
    (horder : order.Perm s.factory.entries.keys) :
    ∃ s', call T s (.cleanup order) = some s' ∧
      ((∀ x entry, s'.factory.entries.lookup x = some entry → entry.refcount ≠ 0) ↔
        ∀ x, CanGo s x → ∀ y, Holds s.factory y x → Before order y x) ∧
      ((∀ x, outsideRefs s x = 0) → (∀ x, ¬ Relation.TransGen (Holds s.factory) x x) →
        (getCount s'.factory = 0 ↔ ∀ x y, Holds s.factory y x → Before order y x)) := by
  obtain ⟨s₀, hs₀, h⟩ := settled_of_reach hs
  cases hs₀
  have hext : ∀ x, 0 ≤ (s.vectors.flatten.reduceOption.count x : Int) + 0 := fun x => by omega
  obtain ⟨f', hf', h', hp⟩ := Exact.cleanup_passed h hext horder
  have hmem : ∀ x, x ∈ order ↔ x ∈ s.factory.entries :=
    fun x => horder.mem_iff.trans AList.mem_keys.symm
  have hinner : Inner s.factory (fun x => (s.vectors.flatten.reduceOption.count x : Int) + 0) =
      fun x => x ∈ s.factory.entries ∧ outsideRefs s x = 0 := by
    funext x
    simp [Inner, outsideRefs]
  refine ⟨{ s with factory := f' }, by rw [call, hf', Option.map_some], ?_, ?_⟩
  · rw [hp.collected_iff h' hext hmem, swept_closed_iff, swept_iff_before, hinner]
    rfl
  · intro houtside hacyclic
    have hall : ∀ x ∈ s.factory.entries, CanGo s x := by
      intro x hx
      exact collectable_of_acyclic (s := {x | x ∈ s.factory.entries})
        (List.finite_toSet s.factory.entries.keys) (fun x hx => ⟨hx, houtside x⟩)
        (fun y x hy => hy.entry) hacyclic hx
    have hswept : (∀ x, x ∉ f'.entries) ↔ ∀ x, CanGo s x →
        Swept (fun x => x ∈ s.factory.entries ∧ outsideRefs s x = 0) (Holds s.factory) order x := by
      constructor
      · intro hgone x hx
        cases hx with
        | intro _ hfree _ =>
          by_contra hkept
          apply hgone x
          rw [hp.entries x, hinner]
          exact ⟨hfree.1, fun hc => hkept hc.2⟩
      · intro hgo x hx
        rw [hp.entries x, hinner] at hx
        exact hx.2 ⟨(hmem x).mpr hx.1, hgo x (hall x hx.1)⟩
    rw [getCount_eq_zero, hswept]
    refine swept_iff_before.trans ⟨fun hbefore x y hy => ?_, fun hbefore x _ => hbefore x⟩
    -- a held entry exists
    have hheld : 0 < (heldRefs s.factory).count x :=
      List.count_pos_iff.mpr (List.mem_flatMap.mpr ⟨y, AList.mem_keys.mp hy.entry, hy⟩)
    have hx : x ∈ s.factory.entries :=
      AList.lookup_isSome.mp (Exact.exists h (by simp only; omega))
    exact hbefore x (hall x hx) y hy

/- A poly takes a reference to another as its parent; nothing else refers to the two. -/
def childRun : List (Label 40 Nat Nat) :=
  [.newVector, .getPoly (.vector 0) 7 0xA#40 ⟨0, 0⟩, .getPoly (.vector 0) 8 0x2#40 ⟨1, 1⟩,
    .moveAssign (.component 7 3, 0) (.vector 0, 1), .popBack (.vector 0), .popBack (.vector 0)]

/-- The child is visited first. -/
theorem cleanup_fixpoint_childRun : ∃ s s' : RefState 40 Nat Unit Nat,
    (refMachine parentTypes).exec (some {}) childRun = some (some s) ∧
      call parentTypes s (.cleanup [7, 8]) = some s' ∧
      ∀ x entry, s'.factory.entries.lookup x = some entry → entry.refcount ≠ 0 := by
  obtain ⟨s, hs, hkeys, hheld⟩ : ∃ s : RefState 40 Nat Unit Nat,
      (refMachine parentTypes).exec (some {}) childRun = some (some s) ∧
        s.factory.entries.keys = [7, 8] ∧ ∀ y ∈ [7, 8], ∀ x ∈ polyRefs s.factory y, y = 7 ∧ x = 8 :=
    ⟨_, rfl, rfl, by decide +kernel⟩
  obtain ⟨s', hs', hiff, -⟩ := cleanup_fixpoint_iff parentTypes
    (Library.Machine.reachable_of_exec rfl hs)
    (List.Perm.of_eq hkeys.symm)
  refine ⟨s, s', hs, hs', hiff.mpr ?_⟩
  intro x _ y hy
  have hin := AList.mem_keys.mp hy.entry
  rw [hkeys] at hin
  obtain ⟨rfl, rfl⟩ := hheld y hin x hy
  exact ⟨[7], [], rfl, List.mem_cons_self⟩

/-- The parent is visited first; it stays with a count of zero. -/
theorem cleanup_leaves_parent : ∃ s s' : RefState 40 Nat Unit Nat,
    (refMachine parentTypes).exec (some {}) childRun = some (some s) ∧
      [8, 7].Perm s.factory.entries.keys ∧ s.vectors = [[]] ∧
      call parentTypes s (.cleanup [8, 7]) = some s' ∧
      (s'.factory.entries.lookup 8).map (·.refcount) = some 0 ∧ getCount s'.factory = 1 :=
  ⟨_, _, rfl, .swap 7 8 [], rfl, rfl, rfl, rfl⟩

end RefState
end CosmicArchitect.Util.PolyFactory
