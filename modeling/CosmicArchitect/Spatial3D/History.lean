import CosmicArchitect.Spatial3D.Effects

/-!
# Reading the history of a run

A history lists events newest first. `life a` is what happened to the node at address `a`
since it was created, `record` the record of a coordinate that the writes so far left,
`lastUnload` the bytes of its most recent completed unload.
-/

namespace CosmicArchitect.Spatial3D
open Serialize

/-- The node an event is about. -/
def Event.node : Event → Option Nat
  | .created a _ => some a
  | .readStarted a _ => some a
  | .deserialize a _ _ _ => some a
  | .generate a _ _ => some a
  | .loaded a => some a
  | .serialized a _ _ => some a
  | .destroyed a _ => some a
  | .stored _ _ => none
  | .finished _ _ _ => none

def Event.isCreated : Event → Bool
  | .created _ _ => true
  | _ => false

def life (a : Nat) : List Event → List Event
  | [] => []
  | e :: tr => if e.node = some a then (if e.isCreated then [e] else e :: life a tr) else life a tr

def record (db : NodeCoord → Option Bytes) (c : NodeCoord) : List Event → Option Bytes
  | [] => db c
  | .stored c' data :: tr => if c' = c then some data else record db c tr
  | _ :: tr => record db c tr

/-- The bytes the node at `a` was serialized to last. -/
def lastSerialized (a : Nat) : List Event → Option Bytes
  | [] => none
  | .serialized a' _ data :: tr => if a' = a then some data else lastSerialized a tr
  | _ :: tr => lastSerialized a tr

def lastUnload (c : NodeCoord) : List Event → Option Bytes
  | [] => none
  | .destroyed a c' :: tr => if c' = c then lastSerialized a tr else lastUnload c tr
  | _ :: tr => lastUnload c tr

theorem life_cons_other {a : Nat} {e : Event} (h : e.node ≠ some a) (tr : List Event) :
    life a (e :: tr) = life a tr := by
  simp only [life, if_neg h]

theorem life_append_other {a : Nat} {es : List Event} (h : ∀ e ∈ es, e.node ≠ some a)
    (tr : List Event) : life a (es ++ tr) = life a tr := by
  induction es with
  | nil => rfl
  | cons e es ih =>
    have he : e.node ≠ some a := h e (List.mem_cons_self ..)
    have hes := ih fun e' he' => h e' (List.mem_cons_of_mem _ he')
    rw [List.cons_append, life_cons_other he, hes]

theorem life_cons_own {a : Nat} {e : Event} (h : e.node = some a) (hc : e.isCreated = false)
    (tr : List Event) : life a (e :: tr) = e :: life a tr := by
  simp only [life, if_pos h, hc, Bool.false_eq_true, if_false]

theorem life_append_own {a : Nat} {es : List Event}
    (h : ∀ e ∈ es, e.node = some a ∧ e.isCreated = false) (tr : List Event) :
    life a (es ++ tr) = es ++ life a tr := by
  induction es with
  | nil => rfl
  | cons e es ih =>
    obtain ⟨hn, hc⟩ := h e (List.mem_cons_self ..)
    have hes := ih fun e' he' => h e' (List.mem_cons_of_mem _ he')
    rw [List.cons_append, life_cons_own hn hc, hes, List.cons_append]

theorem lastSerialized_of_life {a : Nat} {c : NodeCoord} {data : Bytes} {rest : List Event}
    {tr : List Event} (h : life a tr = .serialized a c data :: rest) :
    lastSerialized a tr = some data := by
  induction tr with
  | nil => cases h
  | cons e tr ih =>
    by_cases hn : e.node = some a
    · cases hc : e.isCreated with
      | true =>
        simp only [life, hn, hc, if_true] at h
        cases h
        cases hc
      | false =>
        rw [life_cons_own hn hc] at h
        cases h
        simp only [lastSerialized, if_true]
    · rw [life_cons_other hn] at h
      have htr := ih h
      cases e with
      | serialized a' c' data' =>
        have hne : a' ≠ a := fun hc => hn (congrArg some hc)
        simp only [lastSerialized, if_neg hne, htr]
      | _ => exact htr

/-- The last thing that happened to a node is in the history. -/
theorem split_of_life {a : Nat} {e : Event} {rest tr : List Event} (h : life a tr = e :: rest)
    (hc : e.isCreated = false) :
    ∃ newer older, tr = newer ++ e :: older ∧ life a older = rest := by
  induction tr with
  | nil => cases h
  | cons e' tr ih =>
    by_cases hn : e'.node = some a
    · cases hc' : e'.isCreated with
      | true =>
        simp only [life, hn, hc', if_true] at h
        cases h
        rw [hc] at hc'
        cases hc'
      | false =>
        rw [life_cons_own hn hc'] at h
        cases h
        exact ⟨[], tr, rfl, rfl⟩
    · rw [life_cons_other hn] at h
      obtain ⟨newer, older, htr, hlife⟩ := ih h
      exact ⟨e' :: newer, older, by rw [htr, List.cons_append], hlife⟩

/-- A coordinate without a record was never stored to. -/
theorem record_eq_none {db : NodeCoord → Option Bytes} {c : NodeCoord} {tr : List Event}
    (h : record db c tr = none) : db c = none ∧ ∀ data, .stored c data ∉ tr := by
  induction tr with
  | nil => exact ⟨h, fun data hmem => by cases hmem⟩
  | cons e tr ih =>
    cases e with
    | stored c' data' =>
      by_cases hc : c' = c
      · simp only [record, if_pos hc] at h
        cases h
      · simp only [record, if_neg hc] at h
        obtain ⟨hdb, hmem⟩ := ih h
        refine ⟨hdb, fun data hin => ?_⟩
        rcases List.mem_cons.mp hin with heq | hin
        · cases heq
          exact hc rfl
        · exact hmem data hin
    | _ =>
      obtain ⟨hdb, hmem⟩ := ih h
      refine ⟨hdb, fun data hin => ?_⟩
      rcases List.mem_cons.mp hin with heq | hin
      · cases heq
      · exact hmem data hin

variable {D : Type}

theorem readEvents_own (t : TypeData D) (a : Nat) (c : NodeCoord) (io : IOTask) :
    ∀ e ∈ (readEvents t a c io).reverse, e.node = some a ∧ e.isCreated = false := by
  intro e he
  have hmem := List.mem_reverse.mp he
  cases hst : io.status <;> simp only [readEvents, hst] at hmem
  case success =>
    obtain ⟨i, -, rfl⟩ := List.mem_map.mp hmem
    exact ⟨rfl, rfl⟩
  case notFoundError =>
    obtain ⟨i, -, rfl⟩ := List.mem_map.mp hmem
    exact ⟨rfl, rfl⟩
  all_goals cases hmem

/-! ### What a history says about a load and an unload -/

/-- The read `τ` of the node ended after the node had started it and before anything else
happened to the node. -/
def FinishedIn (a : Nat) (c : NodeCoord) (τ : Nat) (io : IOTask) (tr : List Event) : Prop :=
  ∃ newer older, tr = newer ++ .finished τ io.status io.data :: older ∧
    life a older = [.readStarted a τ, .created a c]

/-- A read that found the record `found`. -/
def IOTask.Found (io : IOTask) (found : Option Bytes) : Prop :=
  (io.status = .success ∧ found = some io.data) ∨ (io.status = .notFoundError ∧ found = none)

/- Since its creation the node started its read, the read ended and found `found`, and then
   all deserialize or all generate callbacks ran, each once; after that only `since`. -/
def Gated (t : TypeData D) (c : NodeCoord) (a : Nat) (since : List Event) (found : Option Bytes)
    (tr : List Event) : Prop :=
  ∃ τ io, FinishedIn a c τ io tr ∧ io.Found found ∧
    life a tr = since ++ (readEvents t a c io).reverse ++ [.readStarted a τ, .created a c]

/-- The bytes the node was serialized to last were stored before anything else happened to
the node. -/
def StoredIn (a : Nat) (c : NodeCoord) (data : Bytes) (tr : List Event) : Prop :=
  ∃ newer older, tr = newer ++ .stored c data :: older ∧
    (life a older).head? = some (.serialized a c data)

theorem FinishedIn.append {a : Nat} {c : NodeCoord} {τ : Nat} {io : IOTask} {tr : List Event}
    (h : FinishedIn a c τ io tr) (es : List Event) : FinishedIn a c τ io (es ++ tr) := by
  obtain ⟨newer, older, rfl, hlife⟩ := h
  exact ⟨es ++ newer, older, by rw [List.append_assoc], hlife⟩

theorem StoredIn.append {a : Nat} {c : NodeCoord} {data : Bytes} {tr : List Event}
    (h : StoredIn a c data tr) (es : List Event) : StoredIn a c data (es ++ tr) := by
  obtain ⟨newer, older, rfl, hlife⟩ := h
  exact ⟨es ++ newer, older, by rw [List.append_assoc], hlife⟩

/-- Nothing happens to the node. -/
theorem Gated.append {t : TypeData D} {c : NodeCoord} {a : Nat} {since : List Event}
    {found : Option Bytes} {tr : List Event} (h : Gated t c a since found tr) {es : List Event}
    (hes : ∀ e ∈ es, e.node ≠ some a) : Gated t c a since found (es ++ tr) := by
  obtain ⟨τ, io, hfin, hfound, hlife⟩ := h
  exact ⟨τ, io, hfin.append es, hfound, by rw [life_append_other hes, hlife]⟩

theorem Gated.cons {t : TypeData D} {c : NodeCoord} {a : Nat} {since : List Event}
    {found : Option Bytes} {tr : List Event} (h : Gated t c a since found tr) {e : Event}
    (hn : e.node = some a) (hc : e.isCreated = false) :
    Gated t c a (e :: since) found (e :: tr) := by
  obtain ⟨τ, io, hfin, hfound, hlife⟩ := h
  refine ⟨τ, io, hfin.append [e], hfound, ?_⟩
  rw [life_cons_own hn hc, hlife, List.cons_append, List.cons_append]

end CosmicArchitect.Spatial3D
