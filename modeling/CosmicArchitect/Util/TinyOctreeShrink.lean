import CosmicArchitect.Util.TinyOctreeIterate

/-!
# Shrinking an octree (Util/TinyOctree.h)

`ShrinkToFit` sets the items of the tree in a new one and exchanges the fields of the two, all
but `m_single_item`. A tree with nodes keeps there what it held while it had one item.
-/

namespace CosmicArchitect.Util.TinyOctree
open Library Blocks

section Model
variable {Item : Type} [DecidableEq Item] (kDepth : Nat) (kInvalidItem : Item)

/-- `ShrinkToFit` (lines 209-233) -/
def shrinkToFit (o : TinyOctree Item) : Option (TinyOctree Item) :=
  if o.data = [] then some o
  else
    (iterate kDepth kInvalidItem o).bind fun calls =>
      (setAll kDepth kInvalidItem (empty kDepth kInvalidItem) calls).map fun newOctree =>
        { o with
          startDepth := newOctree.startDepth
          mask := newOctree.mask
          data := newOctree.data }

/-- `Get` finds what it found before, and `Set` and `Get` go on as on a map with this content. -/
structure Unchanged (o o' : TinyOctree Item) : Prop where
  get : ∀ pos, TinyOctree.get kDepth kInvalidItem o' pos = TinyOctree.get kDepth kInvalidItem o pos
  further : ∀ calls, ∃ o2, setAll kDepth kInvalidItem o' calls = some o2 ∧
    ∀ pos, PosInOctree kDepth pos → TinyOctree.get kDepth kInvalidItem o2 pos =
      (TinyOctree.get kDepth kInvalidItem o pos).map fun v => lastSet v calls pos

def HasItem (o : TinyOctree Item) (pos : Vector3i) : Prop :=
  ∃ v, get kDepth kInvalidItem o pos = some v ∧ v ≠ kInvalidItem

/-- The tree has no nodes, or at least two items, or one that is the old single item. -/
def KeepsSingle (o : TinyOctree Item) : Prop :=
  o.data = [] ∨
  (∃ pos pos', pos ≠ pos' ∧ HasItem kDepth kInvalidItem o pos ∧ HasItem kDepth kInvalidItem o pos') ∨
  ∃ pos, HasItem kDepth kInvalidItem o pos ∧
    get kDepth kInvalidItem o pos = some o.singleItem ∧
    ∀ pos', HasItem kDepth kInvalidItem o pos' → pos' = pos

end Model

variable {Item : Type} {k : Nat} {inv : Item} {o o' : TinyOctree Item}

/-! ### The old single item -/

/-- A tree that has grown out of its single item had one. -/
def Grown (k : Nat) (inv : Item) (o : TinyOctree Item) : Prop :=
  o.startDepth = k ∨ o.singleItem ≠ inv

theorem addNewRoot_singleItem (h : addNewRoot k inv o = some o') : o'.singleItem = o.singleItem := by
  obtain ⟨data, _, rfl⟩ := Option.map_eq_some_iff.mp h
  rfl

theorem addRoots_singleItem {p : Cell} (depth : Nat) : ∀ {o : TinyOctree Item},
    addRoots k inv p depth o = some o' → o'.singleItem = o.singleItem := by
  induction depth with
  | zero =>
    intro o h
    rw [addRoots] at h
    split at h
    · rw [Option.some.inj h]
    · exact absurd h (by simp)
  | succ depth ih =>
    intro o h
    rw [addRoots] at h
    split at h
    · rw [Option.some.inj h]
    · obtain ⟨o1, ho1, h⟩ := Option.bind_eq_some_iff.mp h
      rw [ih h, addNewRoot_singleItem ho1]


variable [DecidableEq Item]

theorem set_grown {pos : Vector3i} {v : Item} (h : Grown k inv o)
    (hset : set k inv o pos v = some o') : Grown k inv o' := by
  rw [set] at hset
  split at hset
  · simp only at hset
    split at hset
    next hempty =>
      obtain rfl := Option.some.inj hset
      exact Or.inl hempty.1
    next hempty =>
      split at hset
      next hclear =>
        obtain rfl := Option.some.inj hset
        exact Or.inl hclear.1
      next =>
        have hsingle : o.singleItem ≠ inv := by
          rcases h with hs | hne
          · exact fun heq => hempty ⟨hs, heq⟩
          · exact hne
        obtain ⟨o1, ho1, hset⟩ := Option.bind_eq_some_iff.mp hset
        have hkeep := addRoots_singleItem _ ho1
        split at hset
        next hs =>
          obtain rfl := Option.some.inj hset
          exact Or.inl hs
        next =>
          obtain ⟨data, _, rfl⟩ := Option.map_eq_some_iff.mp hset
          refine Or.inr ?_
          rw [← hkeep] at hsingle
          exact hsingle
  · obtain rfl := Option.some.inj hset
    exact h

theorem setAll_grown (calls : List (Vector3i × Item)) : ∀ {o : TinyOctree Item},
    Grown k inv o → setAll k inv o calls = some o' → Grown k inv o' := by
  induction calls with
  | nil =>
    intro o h hset
    obtain rfl := Option.some.inj hset
    exact h
  | cons call calls ih =>
    intro o h hset
    obtain ⟨o1, ho1, hset⟩ := Option.bind_eq_some_iff.mp hset
    exact ih (set_grown h ho1) hset

/-! ### The tree built anew -/

omit [DecidableEq Item] in
theorem lastSet_of_not_mem (calls : List (Vector3i × Item)) {pos : Vector3i} :
    ∀ {last : Item}, pos ∉ calls.map Prod.fst → lastSet last calls pos = last := by
  induction calls with
  | nil => exact fun _ => rfl
  | cons call calls ih =>
    intro last h
    rw [List.map_cons, List.mem_cons, not_or] at h
    rw [lastSet, List.foldl_cons, if_neg (Ne.symm h.1)]
    exact ih h.2

omit [DecidableEq Item] in
/-- Of calls at different positions each has the last word at its own. -/
theorem lastSet_of_mem (calls : List (Vector3i × Item)) {pos : Vector3i} {v : Item} :
    ∀ {last : Item}, (calls.map Prod.fst).Nodup → (pos, v) ∈ calls → lastSet last calls pos = v := by
  induction calls with
  | nil => exact fun _ h => absurd h List.not_mem_nil
  | cons call calls ih =>
    intro last hnodup h
    rw [List.map_cons, List.nodup_cons] at hnodup
    rw [lastSet, List.foldl_cons]
    rcases List.mem_cons.mp h with rfl | h
    · rw [if_pos rfl]
      exact lastSet_of_not_mem calls hnodup.1
    · exact ih hnodup.2 h

/-- The items iterated over, set in an empty tree, make a tree with the same content. -/
theorem rebuilt (hk : (kind Item).fullBytes (k - 1) < 65535) (h : Valid k o)
    {calls : List (Vector3i × Item)} (hcalls : CallsAre k inv o calls) :
    ∃ n, setAll k inv (empty k inv) calls = some n ∧ Valid k n ∧
      ∀ pos, PosInOctree k pos → value k inv n (Cell.ofPos pos) = value k inv o (Cell.ofPos pos) := by
  obtain ⟨n, hn, hv, hval⟩ := setAll_spec inv hk calls (valid_empty k inv)
  refine ⟨n, hn, hv, fun pos hpos => ?_⟩
  have hempty : value k inv (empty k inv) (Cell.ofPos pos) = inv := by
    rw [value_single (valid_empty k inv) rfl]
    exact ite_self inv
  rw [hval pos hpos, hempty]
  by_cases hitem : value k inv o (Cell.ofPos pos) = inv
  · rw [hitem]
    refine lastSet_of_not_mem calls fun hmem => ?_
    obtain ⟨⟨pos', v⟩, hcall, rfl⟩ := List.mem_map.mp hmem
    obtain ⟨hget, hne⟩ := (hcalls.2 pos' v).mp hcall
    rw [get_eq h hpos, hitem] at hget
    exact hne (Option.some.inj hget).symm
  · exact lastSet_of_mem calls hcalls.1 ((hcalls.2 pos _).mpr ⟨get_eq h hpos, hitem⟩)

theorem unchanged_iff (hk : (kind Item).fullBytes (k - 1) < 65535) (h : Valid k o)
    (h' : Valid k o') : Unchanged k inv o o' ↔ ∀ pos, PosInOctree k pos →
      value k inv o' (Cell.ofPos pos) = value k inv o (Cell.ofPos pos) := by
  constructor
  · intro hsame pos hpos
    have hget := hsame.get pos
    rw [get_eq h hpos, get_eq h' hpos] at hget
    exact Option.some.inj hget
  · intro hvalue
    refine ⟨fun pos => ?_, fun calls => ?_⟩
    · by_cases hpos : PosInOctree k pos
      · rw [get_eq h hpos, get_eq h' hpos, hvalue pos hpos]
      · rw [get, get, if_neg hpos, if_neg hpos]
    · obtain ⟨o2, ho2, hv2, hval2⟩ := setAll_spec inv hk calls h'
      refine ⟨o2, ho2, fun pos hpos => ?_⟩
      rw [get_eq hv2 hpos, get_eq h hpos, hval2 pos hpos, hvalue pos hpos, Option.map_some]

omit [DecidableEq Item] in
theorem hasItem_iff (h : Valid k o) (pos : Vector3i) :
    HasItem k inv o pos ↔ PosInOctree k pos ∧ value k inv o (Cell.ofPos pos) ≠ inv := by
  by_cases hpos : PosInOctree k pos
  · simp [HasItem, get_eq h hpos, hpos]
  · simp [HasItem, get, hpos]

omit [DecidableEq Item] in
theorem mem_calls_iff {calls : List (Vector3i × Item)} (hcalls : CallsAre k inv o calls)
    (pos : Vector3i) : pos ∈ calls.map Prod.fst ↔ HasItem k inv o pos := by
  rw [List.mem_map]
  constructor
  · rintro ⟨⟨pos', v⟩, hmem, rfl⟩
    exact ⟨v, (hcalls.2 pos' v).mp hmem⟩
  · rintro ⟨v, hitem⟩
    exact ⟨(pos, v), (hcalls.2 pos v).mpr hitem, rfl⟩

omit [DecidableEq Item] in
theorem Valid.swapped {n : TinyOctree Item} (hv : Valid k n) (single : Item) :
    Valid k { n with singleItem := single } :=
  ⟨hv.depth, hv.below, hv.aligned, hv.single, hv.tree⟩

omit [DecidableEq Item] in
/-- The tree a shrunk one takes its nodes from, with the old single item. -/
theorem value_swapped {n : TinyOctree Item} (hv : Valid k n) (single : Item) (q : Cell) :
    value k inv { n with singleItem := single } q =
      if n.startDepth = k then if q = n.mask then single else inv else value k inv n q := by
  by_cases hs : n.startDepth = k
  · rw [if_pos hs]
    exact value_single (hv.swapped single) hs q
  · rw [if_neg hs]
    simp only [value, if_neg hs]
    rfl

theorem posInOctree_zero (k : Nat) : PosInOctree k ⟨0, 0, 0⟩ := by
  have hpow : (0 : Int) < 2 ^ k := Int.pow_pos (by decide)
  exact ⟨⟨le_refl _, hpow⟩, ⟨le_refl _, hpow⟩, le_refl _, hpow⟩

/-- The tree `n` with the single item of `o` has the content of `o`. -/
def SameContent (k : Nat) (inv : Item) (o n : TinyOctree Item) : Prop :=
  ∀ pos, PosInOctree k pos →
    value k inv { n with singleItem := o.singleItem } (Cell.ofPos pos) =
      value k inv o (Cell.ofPos pos)

omit [DecidableEq Item] in
theorem same_none (h : Valid k o) (hold : o.singleItem ≠ inv) (hdata : o.data ≠ [])
    (hcalls : CallsAre k inv o []) :
    SameContent k inv o (empty k inv) ↔ KeepsSingle k inv o := by
  have hno : ∀ pos, ¬HasItem k inv o pos := fun pos hitem =>
    absurd ((mem_calls_iff hcalls pos).mpr hitem) List.not_mem_nil
  constructor
  · intro hsame
    have hinv : value k inv o (Cell.ofPos ⟨0, 0, 0⟩) = inv := by
      by_contra hne
      exact hno _ ((hasItem_iff h _).mpr ⟨posInOctree_zero k, hne⟩)
    have hzero := hsame _ (posInOctree_zero k)
    have hstart : (empty k inv).startDepth = k := rfl
    have hmask : Cell.ofPos ⟨0, 0, 0⟩ = (empty k inv).mask := rfl
    rw [hinv, value_swapped (valid_empty k inv) o.singleItem, if_pos hstart, if_pos hmask] at hzero
    exact absurd hzero hold
  · rintro (hnil | ⟨pos, _, _, hitem, _⟩ | ⟨pos, hitem, _⟩)
    · exact absurd hnil hdata
    · exact absurd hitem (hno pos)
    · exact absurd hitem (hno pos)

theorem same_one (h : Valid k o) (hdata : o.data ≠ []) {p : Vector3i} {v : Item}
    (hcalls : CallsAre k inv o [(p, v)]) {n : TinyOctree Item}
    (hn : setAll k inv (empty k inv) [(p, v)] = some n) (hv : Valid k n) :
    SameContent k inv o n ↔ KeepsSingle k inv o := by
  obtain ⟨hget, hne⟩ := (hcalls.2 p v).mp (List.mem_singleton_self _)
  have hitem : ∀ pos, HasItem k inv o pos ↔ pos = p := by
    intro pos
    rw [← mem_calls_iff hcalls]
    exact List.mem_singleton
  obtain ⟨hpos, -⟩ := (hasItem_iff h p).mp ((hitem p).mpr rfl)
  have hvalue : ∀ pos, PosInOctree k pos → value k inv o (Cell.ofPos pos) =
      if pos = p then v else inv := by
    intro pos hin
    by_cases hp : pos = p
    · rw [hp, if_pos rfl]
      rw [get_eq h hpos] at hget
      exact Option.some.inj hget
    · rw [if_neg hp]
      by_contra hother
      exact hp ((hitem pos).mp ((hasItem_iff h pos).mpr ⟨hin, hother⟩))
  have hsingle : n = { empty k inv with singleItem := v, mask := Cell.ofPos p } := by
    have hset : setAll k inv (empty k inv) [(p, v)] =
        some { empty k inv with singleItem := v, mask := Cell.ofPos p } := by
      simp [setAll, set, hpos, empty]
    exact Option.some.inj (hn.symm.trans hset)
  have hstart : n.startDepth = k := by rw [hsingle]; rfl
  have hmask : n.mask = Cell.ofPos p := by rw [hsingle]
  have hkeeps : KeepsSingle k inv o ↔ v = o.singleItem := by
    constructor
    · rintro (hnil | ⟨pos, pos', hne', hpos1, hpos2⟩ | ⟨pos, hpos1, hold, _⟩)
      · exact absurd hnil hdata
      · exact absurd (((hitem pos).mp hpos1).trans ((hitem pos').mp hpos2).symm) hne'
      · rw [(hitem pos).mp hpos1, hget] at hold
        exact Option.some.inj hold
    · intro heq
      rw [heq] at hget
      exact Or.inr (Or.inr ⟨p, (hitem p).mpr rfl, hget, fun pos' hpos' => (hitem pos').mp hpos'⟩)
  rw [hkeeps]
  constructor
  · intro hsame
    have hp := hsame p hpos
    rw [hvalue p hpos, if_pos rfl, value_swapped hv o.singleItem, if_pos hstart, hmask,
      if_pos rfl] at hp
    exact hp.symm
  · intro heq pos hin
    rw [hvalue pos hin, value_swapped hv o.singleItem, if_pos hstart, hmask, ← heq]
    simp only [ofPos_inj hin hpos]

omit [DecidableEq Item] in
/-- With two items the new tree has nodes. -/
theorem same_more (h : Valid k o) {p p' : Vector3i} (hne : p ≠ p') (hp : HasItem k inv o p)
    (hp' : HasItem k inv o p') {n : TinyOctree Item} (hv : Valid k n)
    (hval : ∀ pos, PosInOctree k pos →
      value k inv n (Cell.ofPos pos) = value k inv o (Cell.ofPos pos)) :
    SameContent k inv o n ↔ KeepsSingle k inv o := by
  obtain ⟨hin, hitem⟩ := (hasItem_iff h p).mp hp
  obtain ⟨hin', hitem'⟩ := (hasItem_iff h p').mp hp'
  have hstart : n.startDepth ≠ k := by
    intro hs
    rw [← hval p hin, value_single hv hs] at hitem
    rw [← hval p' hin', value_single hv hs] at hitem'
    have hcell : Cell.ofPos p = n.mask := by
      by_contra hout
      exact hitem (if_neg hout)
    have hcell' : Cell.ofPos p' = n.mask := by
      by_contra hout
      exact hitem' (if_neg hout)
    exact hne ((ofPos_inj hin hin').mp (hcell.trans hcell'.symm))
  refine ⟨fun _ => Or.inr (Or.inl ⟨p, p', hne, hp, hp'⟩), fun _ pos hpos => ?_⟩
  rw [value_swapped hv o.singleItem, if_neg hstart, hval pos hpos]

/-- Shrinking a tree that was grown from its single item. -/
theorem shrinkToFit_spec (hk : (kind Item).fullBytes (k - 1) < 65535) (h : Valid k o)
    (hgrown : Grown k inv o) :
    ∃ o', shrinkToFit k inv o = some o' ∧ (Unchanged k inv o o' ↔ KeepsSingle k inv o) := by
  by_cases hdata : o.data = []
  · refine ⟨o, if_pos hdata, fun _ => Or.inl hdata, fun _ => ?_⟩
    exact (unchanged_iff hk h h).mpr fun _ _ => rfl
  · have hstart : o.startDepth ≠ k := fun hs => hdata (h.single hs)
    have hold : o.singleItem ≠ inv := hgrown.resolve_left hstart
    obtain ⟨calls, hiterate, hcalls⟩ := h.iterate
    obtain ⟨n, hn, hv, hval⟩ := rebuilt hk h hcalls
    refine ⟨{ n with singleItem := o.singleItem }, ?_, ?_⟩
    · rw [shrinkToFit, if_neg hdata, hiterate, Option.bind_some, hn]
      rfl
    · rw [unchanged_iff hk h (hv.swapped o.singleItem)]
      show SameContent k inv o n ↔ _
      match calls, hcalls, hn with
      | [], hcalls, hn =>
        obtain rfl := Option.some.inj hn
        exact same_none h hold hdata hcalls
      | [(p, v)], hcalls, hn => exact same_one h hdata hcalls hn hv
      | (p, v) :: (p', v') :: rest, hcalls, hn =>
        have hne : p ≠ p' := by
          have hnodup := hcalls.1
          simp only [List.map_cons, List.nodup_cons, List.mem_cons, not_or] at hnodup
          exact hnodup.1.1
        exact same_more h hne ((mem_calls_iff hcalls p).mp (by simp))
          ((mem_calls_iff hcalls p').mp (by simp)) hv hval

/-- Shrinking changes nothing exactly when the tree has no nodes, or two items are left, or the
one that is left is the item it had when it was given its second. -/
theorem shrinkToFit_iff (inv : Item) (calls : List (Vector3i × Item)) :
    ∃ o o', setAll 4 inv (empty 4 inv) calls = some o ∧ shrinkToFit 4 inv o = some o' ∧
      (Unchanged 4 inv o o' ↔ KeepsSingle 4 inv o) := by
  have hk : (kind Item).fullBytes (4 - 1) < 65535 := by
    rw [fullBytes_eq]
    decide
  obtain ⟨o, ho, hv, -⟩ := setAll_spec inv hk calls (valid_empty 4 inv)
  obtain ⟨o', ho', hiff⟩ := shrinkToFit_spec hk hv (setAll_grown calls (Or.inl rfl) ho)
  exact ⟨o, o', ho, ho', hiff⟩

/-- Two items are set and cleared; after shrinking the first is there again, at the origin. -/
theorem shrinkToFit_revives :
    ∃ o o' : TinyOctree Nat,
      setAll 4 0 (empty 4 0) [(⟨1, 2, 3⟩, 7), (⟨4, 5, 6⟩, 8), (⟨1, 2, 3⟩, 0), (⟨4, 5, 6⟩, 0)] =
        some o ∧
      shrinkToFit 4 0 o = some o' ∧ get 4 0 o ⟨0, 0, 0⟩ = some 0 ∧ get 4 0 o' ⟨0, 0, 0⟩ = some 7 ∧
      ¬Unchanged 4 0 o o' := by
  have hrun : ((setAll 4 0 (empty 4 0)
      [(⟨1, 2, 3⟩, 7), (⟨4, 5, 6⟩, 8), (⟨1, 2, 3⟩, 0), (⟨4, 5, 6⟩, 0)]).bind fun o =>
        (shrinkToFit 4 0 o).map fun o' => (get 4 0 o ⟨0, 0, 0⟩, get 4 0 o' ⟨0, 0, 0⟩)) =
      some (some 0, some 7) := by decide +kernel
  obtain ⟨o, ho, hrest⟩ := Option.bind_eq_some_iff.mp hrun
  obtain ⟨o', ho', hgets⟩ := Option.map_eq_some_iff.mp hrest
  obtain ⟨hget, hget'⟩ := Prod.mk.inj hgets
  refine ⟨o, o', ho, ho', hget, hget', fun h => ?_⟩
  have hzero := h.get ⟨0, 0, 0⟩
  rw [hget, hget'] at hzero
  exact absurd hzero (by decide)

end CosmicArchitect.Util.TinyOctree
