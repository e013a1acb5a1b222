import Mathlib.Logic.Function.Basic
import Mathlib.Tactic.Common

/-!
# Mutual links between sites of a grid

Members sit at positions of a grid, and each keeps for every direction a pointer to the
member there. Joining a member writes every link at both ends, dropping it clears the far
ends. The links of the members stay mutual and keep pointing where the grid says.
-/

namespace CosmicArchitect.Library

universe u v w

/-- A grid: the position in a direction, and the direction that leads back from there. -/
structure Compass (P : Type u) (Dir : Type v) where
  dest : P → Dir → Option P
  back : P → Dir → Dir
  dest_back : ∀ {p d q}, dest p d = some q → dest q (back p d) = some p
  back_back : ∀ {p d q}, dest p d = some q → back q (back p d) = d
  dest_ne : ∀ p d, dest p d ≠ some p

/-- Who is where: a member has one position and a position one member. -/
@[ext] structure Site (A : Type w) (P : Type u) where
  stands : A → P → Prop
  unique : ∀ {a p q}, stands a p → stands a q → p = q
  inj : ∀ {a b p}, stands a p → stands b p → a = b

/-- The sites without `a`. -/
def Site.without {A : Type w} {P : Type u} (S : Site A P) (a : A) : Site A P where
  stands x p := x ≠ a ∧ S.stands x p
  unique h h' := S.unique h.2 h'.2
  inj h h' := S.inj h.2 h'.2

namespace Compass
variable {P : Type u} {Dir : Type v} {A : Type w} (K : Compass P Dir)

abbrev Links (A : Type w) (Dir : Type v) := A → Dir → Option A

/-- Links lead to the member at the position in their direction, and back. -/
structure Consistent (S : Site A P) (L : Links A Dir) : Prop where
  aim : ∀ {a d b}, L a d = some b → ∃ p q, S.stands a p ∧ K.dest p d = some q ∧ S.stands b q
  paired : ∀ {a p d b}, S.stands a p → L a d = some b → L b (K.back p d) = some a

variable [DecidableEq A] [DecidableEq Dir]

/-- Link `a` at `p` with `b` in direction `d`, at both ends. -/
def join (a : A) (p : P) (b : A) (L : Links A Dir) (d : Dir) : Links A Dir :=
  fun x e => if x = a ∧ e = d then some b else if x = b ∧ e = K.back p d then some a else L x e

def joinStep (find : P → Option A) (a : A) (p : P) (L : Links A Dir) (d : Dir) : Links A Dir :=
  match (K.dest p d).bind find with
  | some b => K.join a p b L d
  | none => L

/-- Clear the far end of the link of `a` in direction `d`. -/
def dropStep (a : A) (p : P) (L : Links A Dir) (d : Dir) : Links A Dir :=
  match L a d with
  | some b => fun x e => if x = b ∧ e = K.back p d then none else L x e
  | none => L

variable {K} {S : Site A P} {L : Links A Dir} {find : P → Option A} {a : A} {p : P}

/-! ### Joining -/

section Join
variable (hfind : ∀ q b, find q = some b ↔ S.stands b q) (ha : S.stands a p)

include hfind ha in
theorem joinStep_mono (h : K.Consistent S L) (d : Dir) {x : A} {e : Dir} {y : A}
    (hxy : L x e = some y) : K.joinStep find a p L d x e = some y := by
  unfold joinStep
  cases hb : (K.dest p d).bind find with
  | none => exact hxy
  | some b =>
    obtain ⟨q, hq, hfb⟩ := Option.bind_eq_some_iff.mp hb
    have hbq : S.stands b q := (hfind q b).mp hfb
    obtain ⟨p', q', hx, hd, hy⟩ := h.aim hxy
    simp only [join]
    by_cases h1 : x = a ∧ e = d
    · obtain ⟨rfl, rfl⟩ := h1
      cases S.unique hx ha
      cases hd.symm.trans hq
      rw [if_pos ⟨rfl, rfl⟩, S.inj hbq hy]
    · rw [if_neg h1]
      by_cases h2 : x = b ∧ e = K.back p d
      · obtain ⟨rfl, rfl⟩ := h2
        cases S.unique hx hbq
        cases hd.symm.trans (K.dest_back hq)
        rw [if_pos ⟨rfl, rfl⟩, S.inj ha hy]
      · rw [if_neg h2]
        exact hxy

include hfind ha in
theorem consistent_joinStep (h : K.Consistent S L) (d : Dir) :
    K.Consistent S (K.joinStep find a p L d) := by
  have hmono := fun {x e y} => joinStep_mono hfind ha h d (x := x) (e := e) (y := y)
  cases hb : (K.dest p d).bind find with
  | none =>
    have hsame : K.joinStep find a p L d = L := by simp only [joinStep, hb]
    rw [hsame]
    exact h
  | some b =>
    obtain ⟨q, hq, hfb⟩ := Option.bind_eq_some_iff.mp hb
    have hbq : S.stands b q := (hfind q b).mp hfb
    have hval : ∀ x e, K.joinStep find a p L d x e = if x = a ∧ e = d then some b
        else if x = b ∧ e = K.back p d then some a else L x e := by
      intro x e
      simp only [joinStep, hb, join]
    -- the new links, and the old ones
    have hcases : ∀ {x e y}, K.joinStep find a p L d x e = some y →
        (x = a ∧ e = d ∧ y = b) ∨ (x = b ∧ e = K.back p d ∧ y = a) ∨ L x e = some y := by
      intro x e y hxy
      rw [hval] at hxy
      by_cases h1 : x = a ∧ e = d
      · rw [if_pos h1] at hxy
        exact Or.inl ⟨h1.1, h1.2, (Option.some.inj hxy).symm⟩
      · rw [if_neg h1] at hxy
        by_cases h2 : x = b ∧ e = K.back p d
        · rw [if_pos h2] at hxy
          exact Or.inr (Or.inl ⟨h2.1, h2.2, (Option.some.inj hxy).symm⟩)
        · rw [if_neg h2] at hxy
          exact Or.inr (Or.inr hxy)
    have hne : a ≠ b := by
      intro hab
      rw [← hab] at hbq
      cases S.unique ha hbq
      exact K.dest_ne p d hq
    constructor
    · intro x e y hxy
      rcases hcases hxy with ⟨rfl, rfl, rfl⟩ | ⟨rfl, rfl, rfl⟩ | hold
      · exact ⟨p, q, ha, hq, hbq⟩
      · exact ⟨q, p, hbq, K.dest_back hq, ha⟩
      · exact h.aim hold
    · intro x px e y hx hxy
      rcases hcases hxy with ⟨rfl, rfl, rfl⟩ | ⟨rfl, rfl, rfl⟩ | hold
      · cases S.unique hx ha
        rw [hval, if_neg fun hc => hne hc.1.symm, if_pos ⟨rfl, rfl⟩]
      · cases S.unique hx hbq
        rw [hval, K.back_back hq, if_pos ⟨rfl, rfl⟩]
      · exact hmono (h.paired hx hold)

theorem joinStep_self {d : Dir} {q : P} {b : A} (hq : K.dest p d = some q)
    (hb : find q = some b) : K.joinStep find a p L d a d = some b := by
  have hbind : (K.dest p d).bind find = some b := by rw [hq, Option.bind_some, hb]
  simp only [joinStep, hbind, join, and_self, if_true]

include hfind ha in
theorem join_all (ds : List Dir) : ∀ {L : Links A Dir}, K.Consistent S L →
    K.Consistent S (ds.foldl (K.joinStep find a p) L) ∧
    (∀ {x e y}, L x e = some y → ds.foldl (K.joinStep find a p) L x e = some y) ∧
    (∀ {d q b}, d ∈ ds → K.dest p d = some q → find q = some b →
      ds.foldl (K.joinStep find a p) L a d = some b) := by
  induction ds with
  | nil =>
    intro L h
    exact ⟨h, fun hxy => hxy, fun hd => by cases hd⟩
  | cons d ds ih =>
    intro L h
    obtain ⟨hcons, hmono, hlinked⟩ := ih (consistent_joinStep hfind ha h d)
    refine ⟨hcons, fun hxy => hmono (joinStep_mono hfind ha h d hxy), ?_⟩
    intro d' q b hd' hq hb
    rcases List.mem_cons.mp hd' with heq | hmem
    · subst heq
      exact hmono (joinStep_self hq hb)
    · exact hlinked hmem hq hb

/-- The links that joining adds are those of the joined member. -/
theorem join_new (ds : List Dir) : ∀ {L : Links A Dir} {x : A} {e : Dir} {y : A},
    ds.foldl (K.joinStep find a p) L x e = some y → L x e = some y ∨ x = a ∨ y = a := by
  induction ds with
  | nil => exact fun hxy => Or.inl hxy
  | cons d ds ih =>
    intro L x e y hxy
    rcases ih hxy with hstep | hself
    · cases hb : (K.dest p d).bind find with
      | none =>
        simp only [joinStep, hb] at hstep
        exact Or.inl hstep
      | some b =>
        simp only [joinStep, hb, join] at hstep
        split at hstep
        · next hx => exact Or.inr (Or.inl hx.1)
        · split at hstep
          · exact Or.inr (Or.inr (Option.some.inj hstep).symm)
          · exact Or.inl hstep
    · exact Or.inr hself

end Join

/-! ### Dropping -/

/-- What is left of the links when those to `a` are being cleared. -/
structure Dropped (K : Compass P Dir) (S : Site A P) (a : A) (p : P) (L L' : Links A Dir)
    (ds : List Dir) : Prop where
  row : ∀ d, L' a d = L a d
  keep : ∀ {x e}, L x e ≠ some a → L' x e = L x e
  gone : ∀ {x q e}, x ≠ a → S.stands x q → L x e = some a → K.back q e ∈ ds → L' x e = none
  less : ∀ {x e y}, L' x e = some y → L x e = some y

theorem dropped_step {L' : Links A Dir} {ds : List Dir} (h : K.Consistent S L)
    (ha : S.stands a p) (hd : Dropped K S a p L L' ds) (d : Dir) :
    Dropped K S a p L (K.dropStep a p L' d) (d :: ds) := by
  cases hb : L a d with
  | none =>
    have hsame : K.dropStep a p L' d = L' := by simp only [dropStep, hd.row d, hb]
    rw [hsame]
    refine ⟨hd.row, hd.keep, ?_, hd.less⟩
    intro x q e hx hxq hxe hmem
    rcases List.mem_cons.mp hmem with heq | hmem
    · have hback := h.paired hxq hxe
      rw [heq, hb] at hback
      cases hback
    · exact hd.gone hx hxq hxe hmem
  | some b =>
    obtain ⟨p', q, hap, hq, hbq⟩ := h.aim hb
    cases S.unique hap ha
    have hval : ∀ x e, K.dropStep a p L' d x e =
        if x = b ∧ e = K.back p d then none else L' x e := by
      intro x e
      simp only [dropStep, hd.row d, hb]
    have hback : L b (K.back p d) = some a := h.paired ha hb
    have hne : a ≠ b := by
      intro hab
      rw [← hab] at hbq
      cases S.unique ha hbq
      exact K.dest_ne p d hq
    refine ⟨?_, ?_, ?_, ?_⟩
    · intro e
      rw [hval, if_neg fun hc => hne hc.1]
      exact hd.row e
    · intro x e hxe
      rw [hval, if_neg ?_]
      · exact hd.keep hxe
      · intro hc
        rw [hc.1, hc.2] at hxe
        exact hxe hback
    · intro x px e hx hxp hxe hmem
      rw [hval]
      by_cases hc : x = b ∧ e = K.back p d
      · rw [if_pos hc]
      · rw [if_neg hc]
        rcases List.mem_cons.mp hmem with heq | hmem
        · -- this link leads back over direction `d`, so it is the one that was cleared
          exfalso
          obtain ⟨px', pa, hxp', hdest, hapa⟩ := h.aim hxe
          cases S.unique hxp' hxp
          cases S.unique hapa ha
          have hxb := h.paired hxp hxe
          rw [heq, hb] at hxb
          have he := K.back_back hdest
          rw [heq] at he
          exact hc ⟨(Option.some.inj hxb).symm, he.symm⟩
        · exact hd.gone hx hxp hxe hmem
    · intro x e y hxy
      rw [hval] at hxy
      by_cases hc : x = b ∧ e = K.back p d
      · rw [if_pos hc] at hxy
        cases hxy
      · rw [if_neg hc] at hxy
        exact hd.less hxy

omit [DecidableEq A] [DecidableEq Dir] in
theorem dropped_refl (L : Links A Dir) : Dropped K S a p L L [] where
  row _ := rfl
  keep _ := rfl
  gone _ _ _ h := by cases h
  less h := h

theorem drop_all (h : K.Consistent S L) (ha : S.stands a p) (ds : List Dir) :
    ∀ {L' : Links A Dir} {done : List Dir}, Dropped K S a p L L' done →
      ∃ all, Dropped K S a p L (ds.foldl (K.dropStep a p) L') all ∧
        ∀ d, d ∈ ds ∨ d ∈ done → d ∈ all := by
  induction ds with
  | nil =>
    intro L' done hd
    refine ⟨done, hd, fun d hmem => ?_⟩
    rcases hmem with hmem | hmem
    · cases hmem
    · exact hmem
  | cons d ds ih =>
    intro L' done hd
    obtain ⟨all, hall, hmem⟩ := ih (dropped_step h ha hd d)
    refine ⟨all, hall, fun e he => hmem e ?_⟩
    rcases he with he | he
    · rcases List.mem_cons.mp he with heq | he
      · exact Or.inr (heq ▸ List.mem_cons_self ..)
      · exact Or.inl he
    · exact Or.inr (List.mem_cons_of_mem _ he)

omit [DecidableEq Dir] in
theorem consistent_remove (h : K.Consistent S L) {L' : Links A Dir}
    {ds : List Dir} (hd : Dropped K S a p L L' ds) (hall : ∀ d, L a d ≠ none → d ∈ ds) :
    K.Consistent (S.without a) fun x e => if x = a then none else L' x e := by
  have hrow : ∀ {x e y}, (if x = a then none else L' x e) = some y →
      x ≠ a ∧ y ≠ a ∧ L x e = some y := by
    intro x e y hxy
    by_cases hx : x = a
    · rw [if_pos hx] at hxy
      cases hxy
    · rw [if_neg hx] at hxy
      have hold := hd.less hxy
      refine ⟨hx, ?_, hold⟩
      intro hy
      rw [hy] at hold
      obtain ⟨q, -, hxq, -⟩ := h.aim hold
      have hback := h.paired hxq hold
      have hgone := hd.gone hx hxq hold (hall _ (by rw [hback]; exact Option.some_ne_none x))
      rw [hgone] at hxy
      cases hxy
  constructor
  · intro x e y hxy
    obtain ⟨hx, hy, hold⟩ := hrow hxy
    obtain ⟨q, q', hxq, hq, hyq⟩ := h.aim hold
    exact ⟨q, q', ⟨hx, hxq⟩, hq, ⟨hy, hyq⟩⟩
  · intro x q e y hxq hxy
    obtain ⟨hx, hy, hold⟩ := hrow hxy
    have hback := h.paired hxq.2 hold
    rw [if_neg hy, hd.keep]
    · exact hback
    · rw [hback]
      exact fun hc => hx (Option.some.inj hc)

omit [DecidableEq A] [DecidableEq Dir] in
theorem Consistent.mono (h : K.Consistent S L) {S' : Site A P}
    (hle : ∀ {a p}, S.stands a p → S'.stands a p) : K.Consistent S' L where
  aim hab := by
    obtain ⟨q, q', ha, hq, hb⟩ := h.aim hab
    exact ⟨q, q', hle ha, hq, hle hb⟩
  paired ha hab := by
    obtain ⟨q, q', ha', -, -⟩ := h.aim hab
    cases S'.unique ha (hle ha')
    exact h.paired ha' hab

end Compass
end CosmicArchitect.Library
