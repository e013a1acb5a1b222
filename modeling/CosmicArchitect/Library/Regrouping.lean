import Mathlib.Data.List.Perm.Basic
import Mathlib.Data.List.Nodup

/-!
# Items in the list of their key

Lists, one for each of some distinct keys, and items that have a key each. Every item belongs
into the list of its key; an item whose key has no list stays where it is.
-/

namespace CosmicArchitect.Library.Regrouping

universe u v
variable {κ : Type u} {ε : Type v}

/-- The item is not in the list of its key, and there is that list. -/
def Stray (keys : List κ) (key : ε → κ) (k : κ) (e : ε) : Prop := key e ≠ k ∧ key e ∈ keys

theorem not_stray_iff {keys : List κ} {key : ε → κ} {k : κ} {e : ε} :
    ¬Stray keys key k e ↔ key e = k ∨ key e ∉ keys := by
  rw [Stray, not_and_or, not_not]

section Lists
variable [DecidableEq κ] (keys : List κ) (key : ε → κ) (lists : κ → List ε)

instance (k : κ) (e : ε) : Decidable (Stray keys key k e) :=
  inferInstanceAs (Decidable (_ ∧ _))

/-- The list of a key once every item is where it belongs. -/
def regrouped (k : κ) : List ε :=
  ((keys.flatMap lists).filter fun e => key e = k) ++ (lists k).filter fun e => key e ∉ keys

/-- The strays of the list of `i` that belong into the list of `k`. -/
def given (k i : κ) : List ε := (lists i).filter fun e => Stray keys key i e ∧ key e = k

/-- The list of a key after the strays of the lists of some keys were moved. -/
def moved (done : List κ) (k : κ) : List ε :=
  (if k ∈ done then (lists k).filter fun e => ¬Stray keys key k e else lists k) ++
    done.flatMap (given keys key lists k)

variable {keys key lists}

theorem regrouped_no_stray {k : κ} {e : ε} (h : e ∈ regrouped keys key lists k) :
    ¬Stray keys key k e := by
  rw [regrouped, List.mem_append, List.mem_filter, List.mem_filter] at h
  refine not_stray_iff.mpr ?_
  rcases h with ⟨_, hkey⟩ | ⟨_, hkey⟩
  · exact Or.inl (of_decide_eq_true hkey)
  · exact Or.inr (of_decide_eq_true hkey)

theorem given_home {k i : κ} {e : ε} (h : e ∈ given keys key lists k i) : key e = k :=
  (of_decide_eq_true (List.mem_filter.mp h).2).2

theorem given_self (k : κ) : given keys key lists k k = [] :=
  List.filter_eq_nil_iff.mpr fun _ _ h =>
    have hs := of_decide_eq_true h
    hs.1.1 hs.2

theorem given_no_stray {k i : κ} (h : ∀ e ∈ lists i, ¬Stray keys key i e) :
    given keys key lists k i = [] :=
  List.filter_eq_nil_iff.mpr fun e he hs => h e he (of_decide_eq_true hs).1

/-! ### No item is lost or added -/

/-- The items with one of distinct keys, key by key. -/
theorem filter_keys_perm (l : List ε) {ks : List κ} (hdistinct : ks.Nodup) :
    (ks.flatMap fun k => l.filter fun e => key e = k).Perm (l.filter fun e => key e ∈ ks) := by
  induction ks with
  | nil => simp
  | cons k ks ih =>
    obtain ⟨hk, hks⟩ := List.nodup_cons.mp hdistinct
    have hfirst : (l.filter fun e => key e = k) =
        (l.filter fun e => key e ∈ k :: ks).filter fun e => key e = k := by
      rw [List.filter_filter]
      exact List.filter_congr fun e _ => by simpa using Or.inl
    have hrest : (l.filter fun e => key e ∈ ks) =
        (l.filter fun e => key e ∈ k :: ks).filter fun e => !decide (key e = k) := by
      rw [List.filter_filter]
      refine List.filter_congr fun e _ => ?_
      by_cases he : key e = k
      · simp [he, hk]
      · simp [he]
    rw [List.flatMap_cons]
    refine ((ih hks).append_left _).trans ?_
    rw [hfirst, hrest]
    exact List.filter_append_perm _ _

theorem regrouped_conserves (hdistinct : keys.Nodup) :
    (keys.flatMap (regrouped keys key lists)).Perm (keys.flatMap lists) := by
  have hstay : (keys.flatMap fun k => (lists k).filter fun e => key e ∉ keys) =
      (keys.flatMap lists).filter fun e => !decide (key e ∈ keys) := by
    rw [List.filter_flatMap]
    exact List.flatMap_congr fun k _ => List.filter_congr fun e _ => decide_not
  refine (List.flatMap_append_perm keys _ _).symm.trans ?_
  rw [hstay]
  exact ((filter_keys_perm _ hdistinct).append_right _).trans (List.filter_append_perm _ _)

/-! ### Moving strays -/

theorem moved_nil : moved keys key lists [] = lists := by
  funext k
  simp [moved]

/-- A list that is still to come: its own items and what it was given. -/
theorem moved_self {k : κ} {done : List κ} (hk : k ∉ done) :
    moved keys key lists done k = lists k ++ done.flatMap (given keys key lists k) := by
  rw [moved, if_neg hk]

/-- Moving the strays of a further list. -/
theorem moved_concat {k : κ} {done : List κ} (hk : k ∉ done) (q : κ) :
    moved keys key lists (done ++ [k]) q =
      if q = k then (moved keys key lists done k).filter fun e => ¬Stray keys key k e
      else moved keys key lists done q ++
        (moved keys key lists done k).filter fun e => Stray keys key k e ∧ key e = q := by
  -- What was given to the list is no stray of it.
  have hhome : ∀ e ∈ done.flatMap (given keys key lists k), key e = k := by
    intro e he
    obtain ⟨i, _, he⟩ := List.mem_flatMap.mp he
    exact given_home he
  by_cases hq : q = k
  · subst hq
    have hstay : ((done.flatMap (given keys key lists q)).filter
        fun e => ¬Stray keys key q e) = done.flatMap (given keys key lists q) :=
      List.filter_eq_self.mpr fun e he => decide_eq_true fun hs => hs.1 (hhome e he)
    rw [if_pos rfl, moved_self hk, moved, if_pos (by simp), List.filter_append, hstay,
      List.flatMap_append, List.flatMap_singleton, given_self, List.append_nil]
  · have hmem : q ∈ done ++ [k] ↔ q ∈ done := by simp [hq]
    have hgone : ((done.flatMap (given keys key lists k)).filter
        fun e => Stray keys key k e ∧ key e = q) = [] :=
      List.filter_eq_nil_iff.mpr fun e he hs => (of_decide_eq_true hs).1.1 (hhome e he)
    rw [if_neg hq, moved_self hk, moved, moved, List.filter_append, hgone, List.append_nil,
      List.flatMap_append, List.flatMap_singleton, given, List.append_assoc]
    simp only [hmem]

theorem moved_no_stray {done rest : List κ} (h : ∀ k ∈ rest, ∀ e ∈ lists k, ¬Stray keys key k e) :
    moved keys key lists (done ++ rest) = moved keys key lists done := by
  funext k
  have hkept : k ∈ rest → ((lists k).filter fun e => ¬Stray keys key k e) = lists k := fun hk =>
    List.filter_eq_self.mpr fun e he => decide_eq_true (h k hk e he)
  have hgone : rest.flatMap (given keys key lists k) = [] :=
    List.flatMap_eq_nil_iff.mpr fun i hi => given_no_stray (h i hi)
  rw [moved, moved, List.flatMap_append, hgone, List.append_nil]
  by_cases hdone : k ∈ done
  · rw [if_pos hdone, if_pos (List.mem_append_left _ hdone)]
  · by_cases hrest : k ∈ rest
    · rw [if_neg hdone, if_pos (List.mem_append_right _ hrest), hkept hrest]
    · rw [if_neg hdone, if_neg (by simp [hdone, hrest])]

/-- The own items of a list that are no strays: those of its key and those without a list. -/
theorem own_perm {k : κ} (hk : k ∈ keys) :
    (((lists k).filter fun e => key e = k) ++ (lists k).filter fun e => key e ∉ keys).Perm
      ((lists k).filter fun e => ¬Stray keys key k e) := by
  have hhome : ((lists k).filter fun e => key e = k) =
      ((lists k).filter fun e => ¬Stray keys key k e).filter fun e => key e = k := by
    rw [List.filter_filter]
    refine List.filter_congr fun e _ => ?_
    by_cases he : key e = k
    · simp [Stray, he]
    · simp [he]
  have hwaiting : ((lists k).filter fun e => key e ∉ keys) =
      ((lists k).filter fun e => ¬Stray keys key k e).filter fun e => !decide (key e = k) := by
    rw [List.filter_filter]
    refine List.filter_congr fun e _ => ?_
    by_cases he : key e = k
    · simp [he, hk]
    · simp [Stray, he]
  rw [hhome, hwaiting]
  exact List.filter_append_perm _ _

theorem given_perm {k : κ} (hdistinct : keys.Nodup) (hk : k ∈ keys) :
    (keys.flatMap (given keys key lists k)).Perm
      ((keys.erase k).flatMap fun i => (lists i).filter fun e => key e = k) := by
  have hothers : ∀ i ∈ keys.erase k, i ≠ k := fun i hi => (hdistinct.mem_erase_iff.mp hi).1
  refine ((List.perm_cons_erase hk).flatMap_right _).trans ?_
  rw [List.flatMap_cons, given_self, List.nil_append]
  refine List.Perm.of_eq (List.flatMap_congr fun i hi => List.filter_congr fun e _ => ?_)
  rw [decide_eq_decide]
  exact ⟨And.right, fun he => ⟨⟨he ▸ (hothers i hi).symm, he ▸ hk⟩, he⟩⟩

/-- With the strays of all lists moved every item is where it belongs. -/
theorem moved_all {k : κ} (hdistinct : keys.Nodup) (hk : k ∈ keys) :
    (moved keys key lists keys k).Perm (regrouped keys key lists k) := by
  have hall : ((keys.flatMap lists).filter fun e => key e = k).Perm
      (((lists k).filter fun e => key e = k) ++
        (keys.erase k).flatMap fun i => (lists i).filter fun e => key e = k) := by
    rw [List.filter_flatMap]
    exact (List.perm_cons_erase hk).flatMap_right _
  rw [moved, if_pos hk, regrouped]
  refine ((own_perm hk).symm.append (given_perm hdistinct hk)).trans ?_
  refine List.Perm.trans ?_ (hall.symm.append_right _)
  rw [List.append_assoc, List.append_assoc]
  exact List.perm_append_comm.append_left _

end Lists

end CosmicArchitect.Library.Regrouping
