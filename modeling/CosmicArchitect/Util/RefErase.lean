import CosmicArchitect.Util.RefsExact

/-!
# Erasing references from vectors (`unordered_erase`, Util.h)

`std::find` compares the elements of the vector with the item. `WeakRef` compares itself with
`Ptr` values only, to which references do not convert, so two references are compared as the
booleans that they convert to.
-/

namespace CosmicArchitect.Util.PolyFactory
open PolyType

variable {N : Nat} {PolyID D CB : Type}

/-- `a == b` of two references, by `operator bool` on both sides. -/
def refEqual (a b : Option PolyID) : Bool := a.isSome == b.isSome

/-- `unordered_erase` (Util.h:77-92) on a vector of `WeakRef` values. -/
def unorderedErase (vector : List (Option PolyID)) (item : Option PolyID) :
    List (Option PolyID) × Bool :=
  match vector.findIdx? (refEqual · item) with
  | some it => (Library.unorderedEraseIt vector it, true)
  | none => (vector, false)

/-- The first element that is not null is erased, whatever entity the item refers to. -/
theorem findIdx?_refEqual {e : PolyID} : ∀ {refs : List (Option PolyID)}, some e ∈ refs →
    ∃ i first, refs.findIdx? (refEqual · (some e)) = some i ∧ refs[i]? = some (some first) ∧
      refs.find? Option.isSome = some (some first) := by
  intro refs
  induction refs with
  | nil => exact fun he => (by cases he)
  | cons ref refs ih =>
    intro he
    cases ref with
    | some first => exact ⟨0, first, rfl, rfl, rfl⟩
    | none =>
      rw [List.mem_cons] at he
      obtain ⟨i, first, hidx, hi, hfind⟩ := ih (he.resolve_left (by rintro ⟨⟩))
      refine ⟨i + 1, first, ?_, ?_, ?_⟩
      · rw [List.findIdx?_cons, hidx]
        rfl
      · rw [List.getElem?_cons_succ, hi]
      · rw [List.find?_cons_of_neg (by simp), hfind]

section
variable [DecidableEq PolyID]

theorem unorderedErase_perm {refs : List (Option PolyID)} (hnodup : refs.Nodup) {e : PolyID}
    (he : some e ∈ refs) : ∃ i first, refs.findIdx? (refEqual · (some e)) = some i ∧
      i < refs.length ∧ refs.find? Option.isSome = some (some first) ∧
      (Library.unorderedEraseIt refs i).Perm (refs.erase (some first)) := by
  obtain ⟨i, first, hidx, hi, hfind⟩ := findIdx?_refEqual he
  obtain ⟨hlt, hget⟩ := List.getElem?_eq_some_iff.mp hi
  refine ⟨i, first, hidx, hlt, hfind, ?_⟩
  have herase : refs.erase (some first) = refs.eraseIdx i := by
    rw [← hget]
    exact hnodup.erase_getElem i hlt
  rw [herase]
  exact Library.unorderedEraseIt_perm refs hlt

theorem erase_perm_erase_iff {refs : List (Option PolyID)} (hnodup : refs.Nodup) {e first : PolyID}
    (he : some e ∈ refs) :
    (refs.erase (some first)).Perm (refs.erase (some e)) ↔ first = e := by
  constructor
  · intro hperm
    by_contra hne
    have hkept : some e ∈ refs.erase (some first) :=
      (List.mem_erase_of_ne fun hc => hne (Option.some.inj hc).symm).mpr he
    exact hnodup.not_mem_erase (hperm.mem_iff.mp hkept)
  · intro heq
    rw [heq]

end

namespace RefState
variable [DecidableEq PolyID] {T : ComponentTypes D} {s : RefState N PolyID D CB}
  {pend : PolyID → Int} {refs : List (Option PolyID)} {src : Holder PolyID} {e : PolyID}

/-- `unordered_erase(vector, item)` on a vector of `Ref` values, which gives a reference back. -/
def unorderedErase (s : RefState N PolyID D CB) (src : Holder PolyID) (item : Option PolyID) :
    Option (RefState N PolyID D CB × Bool) := do
  let refs ← s.refsAt src
  match refs.findIdx? (refEqual · item) with
  | some it => (s.unorderedEraseIt src it).map fun s => (s, true)
  | none => some (s, false)

/-- `unordered_erase(vector, entity::Ref(entity))`, where the item is a temporary `Ref`. -/
def unorderedEraseRef (s : RefState N PolyID D CB) (src : Holder PolyID) (entity : Option PolyID) :
    Option (RefState N PolyID D CB × Bool) := do
  let s ← s.retain entity
  let (s, erased) ← s.unorderedErase src entity
  let s ← s.release entity
  some (s, erased)

theorem Balanced.unorderedErase (h : Balanced T s pend) (hpend : ∀ x, 0 ≤ pend x)
    (hsrc : s.refsAt src = some refs) {it : Nat} (hit : it < refs.length)
    (hidx : refs.findIdx? (refEqual · (some e)) = some it) :
    ∃ s', s.unorderedErase src (some e) = some (s', true) ∧ Balanced T s' pend ∧
      s'.refsAt = Function.update s.refsAt src (some (Library.unorderedEraseIt refs it)) := by
  obtain ⟨s', hs', h', hlists⟩ := h.unorderedEraseIt hpend hsrc hit
  refine ⟨s', ?_, h', hlists⟩
  simp only [RefState.unorderedErase, hsrc, Option.bind_eq_bind, Option.bind_some, hidx, hs',
    Option.map_some]

theorem Settled.unorderedEraseRef (h : Settled T s) (hsrc : s.refsAt src = some refs) {it : Nat}
    (hit : it < refs.length) (hidx : refs.findIdx? (refEqual · (some e)) = some it)
    (he : (s.factory.entries.lookup e).isSome) :
    ∃ s', s.unorderedEraseRef src (some e) = some (s', true) ∧ Settled T s' ∧
      s'.refsAt = Function.update s.refsAt src (some (Library.unorderedEraseIt refs it)) := by
  obtain ⟨s₁, hretain, h₁, hat₁⟩ := h.retain (some e)
    (fun x => ((some e).toList.count x : Int))
    (fun id hid => by
      cases hid
      exact he) fun x => by omega
  obtain ⟨s₂, herase, h₂, hlists₂⟩ :=
    h₁.unorderedErase (fun x => Int.natCast_nonneg _) ((hat₁ src).trans hsrc) hit hidx
  have hown : 0 < (some e).toList.count e := by
    rw [Option.toList_some, List.count_singleton_self]
    omega
  obtain ⟨s₃, hrelease, h₃, hat₃⟩ := h₂.release (some e) (fun _ => 0)
    (fun id hid => by
      cases hid
      omega) fun x => by omega
  refine ⟨s₃, ?_, h₃, by rw [funext hat₃, hlists₂, funext hat₁]⟩
  simp only [RefState.unorderedEraseRef, hretain, Option.bind_eq_bind, Option.bind_some, herase,
    hrelease]

/-- On vectors of `WeakRef` and of `Ref` values, with a `WeakRef` or a temporary `Ref` as the
item, the same elements stay; they are all but the item's if and only if the item's element is
the first that is not null. -/
theorem unordered_erase_removes_iff (T : ComponentTypes D) (hs : (refMachine T).Reachable (some s))
    (hsrc : s.refsAt src = some refs) (hnodup : refs.Nodup) (he : some e ∈ refs) :
    ∃ s₁ s₂ rest, s.unorderedErase src (some e) = some (s₁, true) ∧
      s.unorderedEraseRef src (some e) = some (s₂, true) ∧
      PolyFactory.unorderedErase refs (some e) = (rest, true) ∧
      s₁.refsAt = Function.update s.refsAt src (some rest) ∧
      s₂.refsAt = Function.update s.refsAt src (some rest) ∧
      (rest.Perm (refs.erase (some e)) ↔ refs.find? Option.isSome = some (some e)) := by
  obtain ⟨s', hs', h⟩ := settled_of_reach hs
  cases hs'
  obtain ⟨it, first, hidx, hit, hfind, hperm⟩ := unorderedErase_perm hnodup he
  obtain ⟨k, hk, hget⟩ := List.mem_iff_getElem.mp he
  have hread : s.read (src, k) = some (some e) := by
    rw [read, hsrc, Option.bind_some, ← hget]
    exact List.getElem?_eq_getElem hk
  obtain ⟨s₁, hs₁, -, hlists₁⟩ := h.unorderedErase (fun _ => Int.le_refl 0) hsrc hit hidx
  obtain ⟨s₂, hs₂, -, hlists₂⟩ := h.unorderedEraseRef hsrc hit hidx (h.live_exists hread)
  refine ⟨s₁, s₂, Library.unorderedEraseIt refs it, hs₁, hs₂, ?_, hlists₁, hlists₂, ?_⟩
  · simp only [PolyFactory.unorderedErase, hidx]
  · rw [hfind, Option.some_inj, Option.some_inj, ← erase_perm_erase_iff hnodup he]
    exact ⟨fun hrest => hperm.symm.trans hrest, fun hrest => hperm.trans hrest⟩

/-- Two entities in the order of their loading. -/
def twoRefs : List (Label 40 Nat Nat) :=
  [.newVector, .getPoly (.vector 0) 7 0x2#40 ⟨0, 0⟩, .getPoly (.vector 0) 8 0x2#40 ⟨1, 1⟩]

theorem unordered_erase_removes_twoRefs : ∃ s s₁ : RefState 40 Nat Unit Nat,
    (refMachine parentTypes).exec (some {}) twoRefs = some (some s) ∧
      s.unorderedErase (.vector 0) (some 7) = some (s₁, true) ∧
      s₁.refsAt (.vector 0) = some [some 8] ∧ [some 8].Perm ([some 7, some 8].erase (some 7)) := by
  obtain ⟨s, hs, hrefs⟩ : ∃ s : RefState 40 Nat Unit Nat,
      (refMachine parentTypes).exec (some {}) twoRefs = some (some s) ∧
        s.refsAt (.vector 0) = some [some 7, some 8] := ⟨_, rfl, rfl⟩
  obtain ⟨s₁, s₂, rest, hs₁, -, hrest, hlists, -, hiff⟩ := unordered_erase_removes_iff parentTypes
    (Library.Machine.reachable_of_exec rfl hs) hrefs (e := 7) (by decide) (by decide)
  cases hrest
  exact ⟨s, s₁, hs, hs₁, by rw [hlists, Function.update_self]; rfl, hiff.mpr rfl⟩

/-- The second of two entities is to be erased, and the first is. -/
theorem unordered_erase_wrong_twoRefs : ∃ s s₁ : RefState 40 Nat Unit Nat,
    (refMachine parentTypes).exec (some {}) twoRefs = some (some s) ∧
      s.refsAt (.vector 0) = some [some 7, some 8] ∧
      s.unorderedErase (.vector 0) (some 8) = some (s₁, true) ∧
      s₁.refsAt (.vector 0) = some [some 8] ∧
      ¬ [some 8].Perm ([some 7, some 8].erase (some 8)) :=
  ⟨_, _, rfl, rfl, rfl, rfl, by decide⟩

end RefState
end CosmicArchitect.Util.PolyFactory
