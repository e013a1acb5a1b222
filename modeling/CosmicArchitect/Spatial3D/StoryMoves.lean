import CosmicArchitect.Spatial3D.Stories

/-!
# Every move keeps the stories

A guard is checked if it does not combine errors of the store with owners that see a
failed operation; only then does the content of a node come from its record.
-/

namespace CosmicArchitect.Spatial3D
open Serialize

variable {D : Type} {t : TypeData D} {db : NodeCoord → Option Bytes} {G : Guard}
  {x x' : Cells D} {c : NodeCoord} {k : Cell D} {early : Prop}

def Guard.Checked (G : Guard) : Prop := G.failedRead ∨ G.failedWrite → ¬ G.storeError

/-- Some background task over `τ` has made its database call. -/
def PerformedIn (pool : List PoolTask) (τ : Nat) : Prop :=
  ∃ e ∈ pool, e.task = τ ∧ e.performed = true

theorem performedIn_append {pool : List PoolTask} {kind : IOKind} {σ τ : Nat} :
    PerformedIn (pool ++ [⟨kind, σ, false⟩]) τ ↔ PerformedIn pool τ := by
  constructor
  · intro h
    obtain ⟨e, he, hτ, hp⟩ := h
    rcases List.mem_append.mp he with he | he
    · exact ⟨e, he, hτ, hp⟩
    · cases List.mem_singleton.mp he
      cases hp
  · intro h
    obtain ⟨e, he, hτ, hp⟩ := h
    exact ⟨e, List.mem_append_left _ he, hτ, hp⟩

theorem record_append {es tr : List Event} (h : ∀ e ∈ es, e.node ≠ none) :
    record db c (es ++ tr) = record db c tr := by
  induction es with
  | nil => rfl
  | cons e es ih =>
    have hes := ih fun e' he' => h e' (List.mem_cons_of_mem _ he')
    have he := h e (List.mem_cons_self ..)
    cases e with
    | stored c' data => exact absurd rfl he
    | _ => exact hes

theorem lastUnload_append {es tr : List Event} (h : ∀ e ∈ es, ∀ a, e ≠ .destroyed a c) :
    lastUnload c (es ++ tr) = lastUnload c tr := by
  induction es with
  | nil => rfl
  | cons e es ih =>
    have hes := ih fun e' he' => h e' (List.mem_cons_of_mem _ he')
    have he := h e (List.mem_cons_self ..)
    cases e with
    | destroyed a c' =>
      have hc : c' ≠ c := fun hc => he a (by rw [hc])
      simp only [List.cons_append, lastUnload, if_neg hc, hes]
    | _ => exact hes

theorem justified_append {es tr : List Event} (htr : Justified t db G tr)
    (h : ∀ e ∈ es, ∀ es', (∀ e' ∈ es', e' ∈ es) → JustifiedEvent t db G (es' ++ tr) e) :
    Justified t db G (es ++ tr) := by
  induction es with
  | nil => exact htr
  | cons e es ih =>
    refine ⟨h e (List.mem_cons_self ..) es fun e' he' => List.mem_cons_of_mem _ he', ?_⟩
    refine ih fun e' he' es' hes' => ?_
    exact h e' (List.mem_cons_of_mem _ he') es' fun e'' he'' => List.mem_cons_of_mem _ (hes' e'' he'')

/-! ### Moves of a node -/

/- A move of the node `a` at `c`, or of the node created or destroyed there: no database
   call returns and no other node owns a task that changes. -/
theorem Stories.nodeMove (h : Stories t db G x) (a : Nat) (es : List Event)
    {k' : Option (Cell D)} (hcell : x'.cell = Function.update x.cell c k')
    (haddr : ∀ d l, d ≠ c → x.cell d = some l → l.addr ≠ a)
    (htasks : ∀ d l τ, d ≠ c → x.cell d = some l → l.task = some τ → x'.tasks τ = x.tasks τ)
    (hpool : ∀ τ, PerformedIn x'.pool τ ↔ PerformedIn x.pool τ)
    (hdb : x'.database = x.database) (htr : x'.trace = es ++ x.trace)
    (hes : ∀ e ∈ es, e.node = some a) (hdestroyed : ∀ e ∈ es, ∀ b d, e = .destroyed b d → d = c)
    (hvacant : k' = none → Settled t db x' c)
    (hown : ∀ k, k' = some k → CellStory t db G x' c k)
    (hjust : Justified t db G x'.trace) : Stories t db G x' := by
  have hself : x'.cell c = k' := by rw [hcell, Function.update_self]
  have hunload : ∀ d, d ≠ c → lastUnload d x'.trace = lastUnload d x.trace := by
    intro d hd
    rw [htr]
    refine lastUnload_append fun e he b hb => ?_
    exact hd (hdestroyed e he b d hb)
  refine h.change c ?_ ?_ ?_ hunload ?_ ?_ ?_ ?_ hjust
  · intro d hd
    rw [hcell, Function.update_of_ne hd]
  · intro d l hd hl
    refine ⟨⟨es, htr, fun e he hn => ?_⟩, fun τ hτ => htasks d l τ hd hl hτ, ?_, ?_, hunload d hd⟩
    · rw [hes e he] at hn
      exact haddr d l hd hl (Option.some.inj hn).symm
    · intro τ io hτ
      exact or_congr Iff.rfl (hpool τ)
    · intro _
      rw [hdb]
  · intro _ d _
    rw [hdb]
  · intro d
    have hnode : ∀ e ∈ es, e.node ≠ none := by
      intro e he hn
      rw [hes e he] at hn
      cases hn
    rw [hdb, htr, record_append hnode]
    exact h.recorded d
  · intro hkey data hd
    rw [hdb] at hd
    exact h.keeps hkey c data hd
  · intro hc
    exact hvacant (hself.symm.trans hc)
  · intro k hk
    exact hown k (hself.symm.trans hk)

theorem Cells.Owned.addr_ne (ho : x.Owned early) (hk : x.cell c = some k) {d : NodeCoord}
    {l : Cell D} (hd : d ≠ c) (hl : x.cell d = some l) : l.addr ≠ k.addr :=
  fun heq => hd (ho.addr hl hk heq)

theorem Cells.Owned.task_ne (ho : x.Owned early) (hk : x.cell c = some k) {τ σ : Nat}
    (hτ : k.task = some τ) {d : NodeCoord} {l : Cell D} (hd : d ≠ c) (hl : x.cell d = some l)
    (hσ : l.task = some σ) : σ ≠ τ := by
  intro heq
  subst heq
  exact hd (ho.exclusive hl hk hσ hτ)

theorem Cells.Owned.fresh_ne (ho : x.Owned early) {τ σ : Nat} (hfresh : x.tasks τ = none)
    {d : NodeCoord} {l : Cell D} (hl : x.cell d = some l) (hσ : l.task = some σ) : σ ≠ τ := by
  intro heq
  subst heq
  obtain ⟨io, hio⟩ := ho.live hl hσ
  rw [hfresh] at hio
  cases hio

theorem Cells.Owned.fresh_pool (ho : x.Owned early) {τ : Nat} (hfresh : x.tasks τ = none) :
    ¬ PerformedIn x.pool τ := by
  intro h
  obtain ⟨e, he, hτ, -⟩ := h
  obtain ⟨d, l, io, -, -, hio, -, -⟩ := ho.owner he
  rw [hτ, hfresh] at hio
  cases hio

theorem Stories.putOnly (h : Stories t db G x) (ho : x.Owned early) (hk : x.cell c = some k)
    {k' : Cell D} (hown : CellStory t db G (x.put c (some k')) c k') :
    Stories t db G (x.put c (some k')) := by
  refine h.nodeMove k.addr [] rfl ?_ ?_ ?_ rfl rfl ?_ ?_ ?_ ?_ ?_
  · intro d l hd hl
    exact ho.addr_ne hk hd hl
  · intro d l τ _ _ _
    rfl
  · intro τ
    exact Iff.rfl
  · intro e he
    cases he
  · intro e he
    cases he
  · intro hc
    cases hc
  · intro l hl
    cases hl
    exact hown
  · exact h.justified

theorem cellStory_put (hs : CellStory t db G x c k) (k' : Option (Cell D)) :
    CellStory t db G (x.put c k') c k := by
  have hun : Unchanged t db x (x.put c k') c k := by
    refine ⟨⟨[], rfl, ?_⟩, fun _ _ => rfl, fun _ _ _ => Iff.rfl, fun _ => rfl, rfl⟩
    intro e he
    cases he
  exact hun.cellStory hs

theorem stories_edit (h : Stories t db G x) (ho : x.Owned early) (hk : x.cell c = some k)
    (body : D) :
    Stories t db G (x.put c (some { k with body := ⟨k.body.scaleIndex, body⟩ })) := by
  have hs := cellStory_put (h.cell c k hk) (some { k with body := ⟨k.body.scaleIndex, body⟩ })
  exact h.putOnly ho hk ⟨hs.scale, hs.coord, hs.story⟩

theorem stories_mark (h : Stories t db G x) (ho : x.Owned early) (hk : x.cell c = some k)
    (hst : k.state = .loaded) : Stories t db G (x.put c (some { k with state := .unloading })) := by
  have hs := cellStory_put (h.cell c k hk) (some { k with state := .unloading })
  refine h.putOnly ho hk ⟨hs.scale, hs.coord, ?_⟩
  have hstory := hs.story
  have hshape := ho.shape hk
  cases hts : k.taskState <;> simp only [Shape, Cell.hold, hst, hts] at hshape
  simp only [Story, hst, hts] at hstory ⊢
  exact hstory

theorem stories_create (h : Stories t db G x) {a : Nat} (hlt : c.scaleIndex < t.maxScale)
    (hc : x.cell c = none) (hfresh : ∀ d k, x.cell d = some k → k.addr ≠ a) :
    Stories t db G ((x.put c (some ⟨a, .loading, .idle, none, ⟨c.scaleIndex, t.newBody⟩⟩)).log
      [.created a c]) := by
  refine h.nodeMove a [.created a c] rfl ?_ ?_ ?_ rfl rfl ?_ ?_ ?_ ?_ ?_
  · intro d l _ hl
    exact hfresh d l hl
  · intro d l τ _ _ _
    rfl
  · intro τ
    exact Iff.rfl
  · intro e he
    cases List.mem_singleton.mp he
    rfl
  · intro e he b d hb
    cases List.mem_singleton.mp he
    cases hb
  · intro hnone
    cases hnone
  · intro l hl
    cases hl
    refine ⟨fun _ => ⟨rfl, hlt⟩, fun τ io hτ => ?_, ?_, ?_⟩
    · cases hτ
    · show life a (.created a c :: x.trace) = _
      simp only [life, Event.node, Event.isCreated, if_true]
    · exact (h.vacant c hc).congr (fun _ => rfl) rfl
  · exact ⟨trivial, h.justified⟩

theorem stories_startRead (h : Stories t db G x) (ho : x.Owned early) (hk : x.cell c = some k)
    (hst : k.state = .loading) (hts : k.taskState = .idle) {τ : Nat} (hfresh : x.tasks τ = none) :
    Stories t db G (((x.addTask .read τ { coord := ⟨c.position, k.body.scaleIndex⟩ }).put c
      (some { k with taskState := .readInProgress, task := some τ })).log
      [.readStarted k.addr τ]) := by
  have hcs := h.cell c k hk
  have hstory := hcs.story
  simp only [Story, hst, hts] at hstory
  obtain ⟨hlife, hsettled⟩ := hstory
  refine h.nodeMove k.addr [.readStarted k.addr τ] rfl ?_ ?_ ?_ rfl rfl ?_ ?_ ?_ ?_ ?_
  · intro d l hd hl
    exact ho.addr_ne hk hd hl
  · intro d l σ _ hl hσ
    exact Function.update_of_ne (ho.fresh_ne hfresh hl hσ) _ _
  · intro σ
    exact performedIn_append
  · intro e he
    cases List.mem_singleton.mp he
    rfl
  · intro e he b d hb
    cases List.mem_singleton.mp he
    cases hb
  · intro hnone
    cases hnone
  · intro l hl
    cases hl
    refine ⟨hcs.scale, ?_, ?_⟩
    · intro σ io hσ hio
      cases hσ
      have hio' := (Function.update_self (f := x.tasks) ..).symm.trans hio
      cases hio'
      rfl
    · simp only [Story, hst]
      refine ⟨τ, { coord := ⟨c.position, k.body.scaleIndex⟩ }, rfl, Function.update_self .., ?_⟩
      refine ⟨?_, ?_, ?_, ?_, ?_⟩
      · have hlife' := life_cons_own (a := k.addr) (e := .readStarted k.addr τ) rfl rfl x.trace
        rw [hlife] at hlife'
        exact hlife'
      · intro hfin
        cases hfin
      · intro _
        exact Or.inl rfl
      · intro _ hdone
        rcases hdone with hfin | hperf
        · cases hfin
        · exact absurd (performedIn_append.mp hperf) (ho.fresh_pool hfresh)
      · exact hsettled.congr (fun _ => rfl) rfl
  · exact ⟨trivial, h.justified⟩

theorem stories_load (h : Stories t db G x) (ho : x.Owned early) (hk : x.cell c = some k)
    (hst : k.state = .loading) (hready : k.taskState = .readDone ∨
      (k.taskState = .readInProgress ∧ G.unfinishedRead ∧ ∃ τ, k.task = some τ)) :
    Stories t db G ((x.put c (some { k with state := .loaded, taskState := .idle })).log
      [.loaded k.addr]) := by
  have hcs := h.cell c k hk
  have hstory := hcs.story
  -- the node is loaded with its content, or early with a task left behind
  have hsource : Sourced t db x c k.addr [] ∨ (G.unfinishedRead ∧ k.task ≠ none) := by
    rcases hready with hts | ⟨hts, hG, τ, hτ⟩
    · simp only [Story, hst, hts] at hstory
      exact Or.inl hstory
    · refine Or.inr ⟨hG, ?_⟩
      rw [hτ]
      exact Option.some_ne_none τ
  refine h.nodeMove k.addr [.loaded k.addr] rfl ?_ ?_ ?_ rfl rfl ?_ ?_ ?_ ?_ ?_
  · intro d l hd hl
    exact ho.addr_ne hk hd hl
  · intro d l τ _ _ _
    rfl
  · intro τ
    exact Iff.rfl
  · intro e he
    cases List.mem_singleton.mp he
    rfl
  · intro e he b d hb
    cases List.mem_singleton.mp he
    cases hb
  · intro hnone
    cases hnone
  · intro l hl
    cases hl
    refine ⟨hcs.scale, hcs.coord, ?_⟩
    intro hnone
    rcases hsource with ⟨found, hgated, hdb⟩ | ⟨-, hne⟩
    · exact ⟨found, hgated.cons rfl rfl, hdb⟩
    · exact absurd hnone hne
  · refine ⟨?_, h.justified⟩
    rcases hsource with ⟨found, hgated, -⟩ | ⟨hG, -⟩
    · exact Or.inr ⟨c, found, hgated⟩
    · exact Or.inl hG

theorem stories_startWrite (h : Stories t db G x) (ho : x.Owned early) (hk : x.cell c = some k)
    (hst : k.state = .unloading) (hts : k.taskState = .idle) (hnone : k.task = none) {τ : Nat}
    (hfresh : x.tasks τ = none) :
    Stories t db G (((x.addTask .write τ { coord := ⟨c.position, k.body.scaleIndex⟩
                                           data := t.serializeAll c.position k.body }).put c
      (some { k with taskState := .writeInProgress, task := some τ })).log
      [.serialized k.addr c (t.serializeAll c.position k.body)]) := by
  have hcs := h.cell c k hk
  have hstory := hcs.story
  simp only [Story, hst, hts] at hstory
  obtain ⟨found, hgated, hdb⟩ := hstory hnone
  refine h.nodeMove k.addr [.serialized k.addr c (t.serializeAll c.position k.body)]
    rfl ?_ ?_ ?_ rfl rfl ?_ ?_ ?_ ?_ ?_
  · intro d l hd hl
    exact ho.addr_ne hk hd hl
  · intro d l σ _ hl hσ
    exact Function.update_of_ne (ho.fresh_ne hfresh hl hσ) _ _
  · intro σ
    exact performedIn_append
  · intro e he
    cases List.mem_singleton.mp he
    rfl
  · intro e he b d hb
    cases List.mem_singleton.mp he
    cases hb
  · intro hc
    cases hc
  · intro l hl
    cases hl
    refine ⟨hcs.scale, ?_, ?_⟩
    · intro σ io hσ hio
      cases hσ
      have hio' := (Function.update_self (f := x.tasks) ..).symm.trans hio
      cases hio'
      rfl
    · simp only [Story, hst]
      refine ⟨τ, { coord := ⟨c.position, k.body.scaleIndex⟩
                   data := t.serializeAll c.position k.body }, rfl, Function.update_self .., ?_⟩
      refine ⟨⟨_, life_cons_own rfl rfl x.trace⟩, ?_, ?_, ?_, ?_⟩
      · intro _
        exact ⟨found, hgated.cons rfl rfl, hdb⟩
      · intro _
        rfl
      · intro _ hdone
        rcases hdone with hfin | hperf
        · cases hfin
        · exact absurd (performedIn_append.mp hperf) (ho.fresh_pool hfresh)
      · intro hkey
        obtain ⟨hscale, hlt⟩ := hcs.scale hkey
        have hkeeps := hkey.written c.position k.body (by rw [hscale]; exact hlt)
        rw [hscale] at hkeeps
        exact hkeeps
  · exact ⟨trivial, h.justified⟩

/-- Under a checked guard the owner of a finished read sees a record or NOT_FOUND. -/
theorem Reading.found {a τ : Nat} {io : IOTask} (hr : Reading t db G x c a τ io) (hG : G.Checked)
    (hfin : io.finished = true)
    (hbad : io.status ≠ .success → io.status ≠ .notFoundError → G.failedRead) :
    ∃ found, io.Found found ∧ (Keyed t db → x.database c = found) := by
  have hstatus : io.status = .success ∨ io.status = .notFoundError := by
    by_contra hneither
    have hne := not_or.mp hneither
    exact hneither (hr.status (hG (Or.inl (hbad hne.1 hne.2))))
  rcases hstatus with hst | hst
  · exact ⟨some io.data, Or.inl ⟨hst, rfl⟩, fun hkey => (hr.result hkey (Or.inl hfin)).1 hst⟩
  · exact ⟨none, Or.inr ⟨hst, rfl⟩, fun hkey => (hr.result hkey (Or.inl hfin)).2 hst⟩

theorem readBody_scale {io : IOTask} {found : Option Bytes} (hfound : io.Found found)
    (hkey : Keyed t db) (hkeeps : ∀ data, found = some data → KeepsScale t c data) (seed : Nat)
    {b : NodeBody D} (hb : b.scaleIndex = c.scaleIndex) :
    (readBody t seed c.position b io).scaleIndex = c.scaleIndex := by
  rcases hfound with ⟨hst, hdata⟩ | ⟨hst, -⟩
  · simp only [readBody, hst]
    exact hkeeps io.data hdata b hb
  · simp only [readBody, hst]
    exact (hkey.generated seed c.position b).trans hb

/-- Each callback event is justified by the record that the read found. -/
theorem justified_readEvents {io : IOTask} {found : Option Bytes} {tr : List Event} {a : Nat}
    (hfound : io.Found found) (htr : Justified t db G tr)
    (hunload : Keyed t db → (lastUnload c tr).or (db c) = found)
    (hrecord : Keyed t db → record db c tr = found) :
    Justified t db G ((readEvents t a c io).reverse ++ tr) := by
  refine justified_append htr fun e he es' hes' => ?_
  have hown : ∀ e' ∈ es', e'.node = some a ∧ ∀ b, e' ≠ .destroyed b c := by
    intro e' he'
    refine ⟨(readEvents_own t a c io e' (hes' e' he')).1, fun b hb => ?_⟩
    have hmem := List.mem_reverse.mp (hes' e' he')
    rw [hb] at hmem
    rcases hfound with ⟨hst, -⟩ | ⟨hst, -⟩ <;> simp only [readEvents, hst] at hmem <;>
      obtain ⟨i, -, hi⟩ := List.mem_map.mp hmem <;> cases hi
  have hun : lastUnload c (es' ++ tr) = lastUnload c tr :=
    lastUnload_append fun e' he' => (hown e' he').2
  have hrec : record db c (es' ++ tr) = record db c tr := by
    refine record_append fun e' he' hn => ?_
    rw [(hown e' he').1] at hn
    cases hn
  have hmem := List.mem_reverse.mp he
  rcases hfound with ⟨hst, hdata⟩ | ⟨hst, hnone⟩
  · simp only [readEvents, hst] at hmem
    obtain ⟨i, -, rfl⟩ := List.mem_map.mp hmem
    intro hkey
    rw [hun, hunload hkey, hdata]
  · simp only [readEvents, hst] at hmem
    obtain ⟨i, -, rfl⟩ := List.mem_map.mp hmem
    intro hkey
    rw [hun, hrec, hunload hkey, hrecord hkey]
    exact ⟨hnone, hnone⟩

theorem readEvents_not_destroyed (t : TypeData D) (a : Nat) (c : NodeCoord) (io : IOTask) :
    ∀ e ∈ (readEvents t a c io).reverse, ∀ b d, e = .destroyed b d → d = c := by
  intro e he b d hb
  have hmem := List.mem_reverse.mp he
  rw [hb] at hmem
  cases hst : io.status <;> simp only [readEvents, hst] at hmem
  case success =>
    obtain ⟨i, -, hi⟩ := List.mem_map.mp hmem
    cases hi
  case notFoundError =>
    obtain ⟨i, -, hi⟩ := List.mem_map.mp hmem
    cases hi
  all_goals cases hmem

theorem stories_finishRead (h : Stories t db G x) (ho : x.Owned early) (hG : G.Checked)
    (hk : x.cell c = some k) (hst : k.state = .loading) (hts : k.taskState = .readInProgress)
    {τ : Nat} {io : IOTask} (hτ : k.task = some τ) (hio : x.tasks τ = some io)
    (hfin : io.finished = true)
    (hbad : io.status ≠ .success → io.status ≠ .notFoundError → G.failedRead) (seed : Nat) :
    Stories t db G (((x.freeTask τ).put c (some { k with
        body := readBody t seed c.position k.body io, taskState := .readDone, task := none })).log
      (readEvents t k.addr c io).reverse) := by
  have hcs := h.cell c k hk
  have hreading : Reading t db G x c k.addr τ io := by
    have hstory := hcs.story
    simp only [Story, hst, hts] at hstory
    obtain ⟨σ, io', hσ, hio', hr⟩ := hstory
    cases hτ.symm.trans hσ
    cases hio.symm.trans hio'
    exact hr
  obtain ⟨found, hfound, hdb⟩ := hreading.found hG hfin hbad
  have hevents := readEvents_own t k.addr c io
  refine h.nodeMove k.addr _ rfl ?_ ?_ ?_ rfl rfl ?_ ?_ ?_ ?_ ?_
  · intro d l hd hl
    exact ho.addr_ne hk hd hl
  · intro d l σ hd hl hσ
    exact Function.update_of_ne (ho.task_ne hk hτ hd hl hσ) _ _
  · intro σ
    exact Iff.rfl
  · intro e he
    exact (hevents e he).1
  · exact readEvents_not_destroyed t k.addr c io
  · intro hc
    cases hc
  · intro l hl
    cases hl
    refine ⟨fun hkey => ⟨?_, (hcs.scale hkey).2⟩, fun σ io' hσ => ?_, ?_⟩
    · refine readBody_scale hfound hkey (fun data hdata => ?_) seed (hcs.scale hkey).1
      exact h.keeps hkey c data ((hdb hkey).trans hdata)
    · cases hσ
    · simp only [Story, hst]
      refine ⟨found, ⟨τ, io, (hreading.finished hfin).append _, hfound, ?_⟩, hdb⟩
      have hlife := life_append_own hevents x.trace
      rw [hreading.life] at hlife
      exact hlife
  · refine justified_readEvents hfound h.justified (fun hkey => ?_) fun hkey => ?_
    · exact (hreading.settled hkey).symm.trans (hdb hkey)
    · exact (h.recorded c).symm.trans (hdb hkey)

theorem stories_destroyWritten (h : Stories t db G x) (ho : x.Owned early) (hG : G.Checked)
    (hk : x.cell c = some k) (hst : k.state = .unloading) (hts : k.taskState = .writeInProgress)
    {τ : Nat} {io : IOTask} (hτ : k.task = some τ) (hio : x.tasks τ = some io)
    (hfin : io.finished = true) (hbad : io.status ≠ .success → G.failedWrite) :
    Stories t db G (((x.freeTask τ).put c none).log [.destroyed k.addr c]) := by
  have hwriting : Writing t db G x c k.addr τ io := by
    have hstory := (h.cell c k hk).story
    simp only [Story, hst, hts] at hstory
    obtain ⟨σ, io', hσ, hio', hw⟩ := hstory
    cases hτ.symm.trans hσ
    cases hio.symm.trans hio'
    exact hw
  have hsuccess : io.status = .success := by
    by_contra hne
    exact hne (hwriting.status (hG (Or.inr (hbad hne))))
  obtain ⟨rest, hlife⟩ := hwriting.life
  refine h.nodeMove k.addr [.destroyed k.addr c] rfl ?_ ?_ ?_ rfl rfl ?_ ?_ ?_ ?_ ?_
  · intro d l hd hl
    exact ho.addr_ne hk hd hl
  · intro d l σ hd hl hσ
    exact Function.update_of_ne (ho.task_ne hk hτ hd hl hσ) _ _
  · intro σ
    exact Iff.rfl
  · intro e he
    cases List.mem_singleton.mp he
    rfl
  · intro e he b d hb
    cases List.mem_singleton.mp he
    cases hb
    rfl
  · intro _ hkey
    have hdb := (hwriting.stored hkey (Or.inl hfin) hsuccess).2
    show x.database c = (lastUnload c (.destroyed k.addr c :: x.trace)).or (db c)
    simp only [lastUnload, if_true, lastSerialized_of_life hlife, Option.some_or, hdb]
  · intro l hl
    cases hl
  · refine ⟨fun hkey => ⟨io.data, rest, hlife, ?_⟩, h.justified⟩
    exact (hwriting.stored hkey (Or.inl hfin) hsuccess).1

/-! ### Moves of a background task -/

/-- A background task touches its own `IOTask` and the record of its owner only. -/
theorem unchanged_background (es : List Event) (ho : x.Owned early) {τ : Nat} (hk : x.cell c = some k)
    (hτ : k.task = some τ) (htasks : ∀ σ, σ ≠ τ → x'.tasks σ = x.tasks σ)
    (hpool : ∀ σ, σ ≠ τ → (PerformedIn x'.pool σ ↔ PerformedIn x.pool σ))
    (hdb : Keyed t db → ∀ d, d ≠ c → x'.database d = x.database d)
    (htr : x'.trace = es ++ x.trace) (hes : ∀ e ∈ es, e.node = none) :
    ∀ d l, d ≠ c → x.cell d = some l → Unchanged t db x x' d l := by
  intro d l hd hl
  have hne : ∀ {σ}, l.task = some σ → σ ≠ τ := fun hσ => ho.task_ne hk hτ hd hl hσ
  refine ⟨⟨es, htr, fun e he hn => ?_⟩, fun σ hσ => htasks σ (hne hσ),
    fun σ io hσ => or_congr Iff.rfl (hpool σ (hne hσ)), fun hkey => hdb hkey d hd, ?_⟩
  · rw [hes e he] at hn
    cases hn
  · rw [htr]
    refine lastUnload_append fun e he a hea => ?_
    have hn := hes e he
    rw [hea] at hn
    cases hn

theorem performedIn_set {pool : List PoolTask} {i : Nat} {e : PoolTask} (hi : pool[i]? = some e)
    {σ : Nat} (hσ : σ ≠ e.task) :
    PerformedIn (pool.set i { e with performed := true }) σ ↔ PerformedIn pool σ := by
  obtain ⟨hlt, -⟩ := List.getElem?_eq_some_iff.mp hi
  constructor
  · intro h
    obtain ⟨f, hf, hfσ, hp⟩ := h
    rcases List.mem_or_eq_of_mem_set hf with hf | heq
    · exact ⟨f, hf, hfσ, hp⟩
    · subst heq
      exact absurd hfσ.symm hσ
  · intro h
    obtain ⟨f, hf, hfσ, hp⟩ := h
    obtain ⟨j, hj⟩ := List.getElem?_of_mem hf
    have hij : i ≠ j := by
      intro hij
      subst hij
      cases hi.symm.trans hj
      exact hσ hfσ.symm
    refine ⟨f, List.mem_of_getElem? (i := j) ?_, hfσ, hp⟩
    rw [List.getElem?_set_ne hij]
    exact hj

theorem performedIn_eraseIdx {pool : List PoolTask} {i : Nat} {e : PoolTask}
    (hi : pool[i]? = some e) {σ : Nat} (hσ : σ ≠ e.task) :
    PerformedIn (pool.eraseIdx i) σ ↔ PerformedIn pool σ := by
  constructor
  · intro h
    obtain ⟨f, hf, hfσ, hp⟩ := h
    exact ⟨f, List.mem_of_mem_eraseIdx hf, hfσ, hp⟩
  · intro h
    obtain ⟨f, hf, hfσ, hp⟩ := h
    obtain ⟨j, hj⟩ := List.getElem?_of_mem hf
    have hji : j ≠ i := by
      intro hji
      subst hji
      cases hi.symm.trans hj
      exact hσ hfσ.symm
    exact ⟨f, List.mem_eraseIdx_iff_getElem?.mpr ⟨j, hji, hj⟩, hfσ, hp⟩

theorem not_done_of_pool (ho : x.Owned early) {i : Nat} {e : PoolTask} (hi : x.pool[i]? = some e)
    (hp : e.performed = false) {io : IOTask} (hfin : io.finished = false) :
    ¬ Done x e.task io := by
  intro hdone
  rcases hdone with hf | ⟨f, hf, hfτ, hfp⟩
  · rw [hfin] at hf
    cases hf
  · obtain ⟨j, hj⟩ := List.getElem?_of_mem hf
    have hji := ho.single hj hi hfτ
    subst hji
    cases hi.symm.trans hj
    rw [hp] at hfp
    cases hfp

/-- The phases in which a node owns a task that the pool runs. -/
theorem owner_phase (ho : x.Owned early) (hk : x.cell c = some k) {τ : Nat}
    (hτ : k.task = some τ) :
    (k.state = .loading ∧ k.taskState = .readInProgress) ∨
    (k.state = .unloading ∧ k.taskState = .writeInProgress) ∨
    ((k.state = .loaded ∨ k.state = .unloading) ∧ k.taskState = .idle) := by
  have hshape := ho.shape hk
  cases hst : k.state <;> cases hts : k.taskState <;>
    simp [Shape, Cell.hold, hst, hts, hτ] at hshape ⊢

theorem nodeReadIOTask_spec (database : NodeCoord → Option Bytes) (io : IOTask)
    {outcome : Outcome} (hlegal : outcome.Legal) :
    (nodeReadIOTask database io outcome).coord = io.coord ∧
    ((nodeReadIOTask database io outcome).status = .success →
      database io.coord = some (nodeReadIOTask database io outcome).data) ∧
    ((nodeReadIOTask database io outcome).status = .notFoundError → database io.coord = none) ∧
    (outcome = .ok → (nodeReadIOTask database io outcome).status = .success ∨
      (nodeReadIOTask database io outcome).status = .notFoundError) := by
  cases outcome with
  | ok =>
    cases hdb : database io.coord with
    | some data => simp [nodeReadIOTask, hdb]
    | none => simp [nodeReadIOTask, hdb]
  | error status =>
    obtain ⟨hs, hn⟩ := hlegal
    refine ⟨rfl, fun hst => absurd hst hs, fun hst => absurd hst hn, fun hok => ?_⟩
    cases hok

theorem stories_performRead (h : Stories t db G x) (ho : x.Owned early) {i : Nat} {e : PoolTask}
    {io : IOTask} {outcome : Outcome} (hi : x.pool[i]? = some e) (hread : e.kind = .read)
    (hio : x.tasks e.task = some io) (hlegal : outcome.Legal)
    (herr : outcome ≠ .ok → G.storeError) :
    Stories t db G (x.performed i e x.database (nodeReadIOTask x.database io outcome)) := by
  obtain ⟨c, k, io', hk, hτ, hio', hfin, hkind⟩ := ho.owner (List.mem_of_getElem? hi)
  cases hio.symm.trans hio'
  have hcs := h.cell c k hk
  obtain ⟨hcoord, hsuccess, hnotFound, hok⟩ := nodeReadIOTask_spec x.database io hlegal
  have hself : (x.performed i e x.database (nodeReadIOTask x.database io outcome)).tasks e.task =
      some (nodeReadIOTask x.database io outcome) := Function.update_self ..
  refine h.change c (fun _ _ => rfl) ?_ (fun _ _ _ => rfl) (fun _ _ => rfl) h.recorded
    (fun hkey => h.keeps hkey c) (fun hc => ?_) (fun l hl => ?_) h.justified
  · refine unchanged_background [] ho hk hτ ?_ ?_ (fun _ _ _ => rfl) rfl ?_
    · intro σ hσ
      exact Function.update_of_ne hσ _ _
    · intro σ hσ
      exact performedIn_set hi hσ
    · intro e' he'
      cases he'
  · cases hk.symm.trans hc
  · cases hk.symm.trans hl
    refine ⟨hcs.scale, fun σ io'' hσ hio'' => ?_, ?_⟩
    · cases hτ.symm.trans hσ
      cases hself.symm.trans hio''
      exact hcoord.trans (hcs.coord e.task io hτ hio)
    · have hstory := hcs.story
      rcases owner_phase ho hk hτ with ⟨hst, hts⟩ | ⟨hst, hts⟩ | ⟨hst, hts⟩
      · simp only [Story, hst, hts] at hstory ⊢
        obtain ⟨σ, io'', hσ, hio'', hr⟩ := hstory
        cases hτ.symm.trans hσ
        cases hio.symm.trans hio''
        refine ⟨e.task, _, hτ, hself, hr.life, fun hfin' => ?_, fun hG => ?_, fun hkey _ => ?_,
          hr.settled⟩
        · rw [nodeReadIOTask_finished, hfin] at hfin'
          cases hfin'
        · refine hok ?_
          by_contra hne
          exact hG (herr hne)
        · have hc : io.coord = c := by
            rw [hcs.coord e.task io hτ hio, (hcs.scale hkey).1]
          rw [hc] at hsuccess hnotFound
          exact ⟨hsuccess, hnotFound⟩
      · rw [hread, kindOf, if_pos hts] at hkind
        cases hkind
      · rcases hst with hst | hst <;> simp only [Story, hst, hts] <;> intro hnone <;>
          rw [hτ] at hnone <;> cases hnone

theorem done_performed {i : Nat} {e : PoolTask} (hi : x.pool[i]? = some e)
    (hpool : x'.pool = x.pool.set i { e with performed := true }) (io : IOTask) :
    Done x' e.task io := by
  refine Or.inr ⟨{ e with performed := true }, ?_, rfl, rfl⟩
  rw [hpool]
  exact List.mem_of_getElem? (List.getElem?_set_self (List.getElem?_eq_some_iff.mp hi).1)

/-- A write in the pool belongs to a node whose unload waits for it. -/
theorem Stories.writing (h : Stories t db G x) (ho : x.Owned early) {i : Nat} {e : PoolTask}
    {io : IOTask} (hi : x.pool[i]? = some e) (hwrite : e.kind = .write)
    (hio : x.tasks e.task = some io) : ∃ c k, x.cell c = some k ∧ k.task = some e.task ∧
      io.finished = false ∧ k.state = .unloading ∧ k.taskState = .writeInProgress ∧
      Writing t db G x c k.addr e.task io := by
  obtain ⟨c, k, io', hk, hτ, hio', hfin, hkind⟩ := ho.owner (List.mem_of_getElem? hi)
  cases hio.symm.trans hio'
  have hphase : k.state = .unloading ∧ k.taskState = .writeInProgress := by
    rw [hwrite] at hkind
    rcases owner_phase ho hk hτ with ⟨-, hts⟩ | hphase | ⟨-, hts⟩
    · rw [hts] at hkind
      cases hkind
    · exact hphase
    · rw [hts] at hkind
      cases hkind
  obtain ⟨hst, hts⟩ := hphase
  refine ⟨c, k, hk, hτ, hfin, hst, hts, ?_⟩
  have hstory := (h.cell c k hk).story
  simp only [Story, hst, hts] at hstory
  obtain ⟨σ, io'', hσ, hio'', hw⟩ := hstory
  cases hτ.symm.trans hσ
  cases hio.symm.trans hio''
  exact hw

/-- A write that succeeds replaces the record of its coordinate. -/
theorem stories_written (h : Stories t db G x) (ho : x.Owned early) {i : Nat} {e : PoolTask}
    {io : IOTask} (hi : x.pool[i]? = some e) (hp : e.performed = false)
    (hwrite : e.kind = .write) (hio : x.tasks e.task = some io) :
    Stories t db G ((x.performed i e (nodeWriteIOTask x.database io .ok).1
      (nodeWriteIOTask x.database io .ok).2.1).log (nodeWriteIOTask x.database io .ok).2.2) := by
  obtain ⟨c, k, hk, hτ, hfin, hst, hts, hwriting⟩ := h.writing ho hi hwrite hio
  have hcs := h.cell c k hk
  have hcoord := hcs.coord e.task io hτ hio
  obtain ⟨found, hgated, hdb⟩ := hwriting.before (not_done_of_pool ho hi hp hfin)
  have hc : Keyed t db → io.coord = c := by
    intro hkey
    rw [hcoord, (hcs.scale hkey).1]
  obtain ⟨rest, hlife⟩ := hwriting.life
  refine h.change c (fun _ _ => rfl) ?_ (fun hkey d hd => ?_) (fun _ _ => rfl) (fun d => ?_)
    (fun hkey data hd => ?_) (fun hv => ?_) (fun l hl => ?_) ?_
  · refine unchanged_background [.stored io.coord io.data] ho hk hτ ?_ ?_ ?_ rfl ?_
    · intro σ hσ
      exact Function.update_of_ne hσ _ _
    · intro σ hσ
      exact performedIn_set hi hσ
    · intro hkey d hd
      exact Function.update_of_ne (by rw [hc hkey]; exact hd) _ _
    · intro e' he'
      cases List.mem_singleton.mp he'
      rfl
  · exact Function.update_of_ne (by rw [hc hkey]; exact hd) _ _
  · show Function.update x.database io.coord (some io.data) d =
      record db d (.stored io.coord io.data :: x.trace)
    by_cases hd : io.coord = d
    · subst hd
      simp only [Function.update_self, record, if_true]
    · simp only [Function.update_of_ne (Ne.symm hd), record, if_neg hd]
      exact h.recorded d
  · have hdata : Function.update x.database io.coord (some io.data) c = some data := hd
    rw [hc hkey, Function.update_self] at hdata
    cases hdata
    exact hwriting.keeps hkey
  · cases hk.symm.trans hv
  · cases hk.symm.trans hl
    refine ⟨hcs.scale, fun σ io'' hσ hio'' => ?_, ?_⟩
    · cases hτ.symm.trans hσ
      cases (Function.update_self (f := x.tasks) ..).symm.trans hio''
      exact hcoord
    · simp only [Story, hst, hts]
      refine ⟨e.task, _, hτ, Function.update_self .., ⟨rest, ?_⟩, fun hnd => ?_, fun _ => rfl,
        fun hkey _ _ => ⟨⟨[], x.trace, ?_, ?_⟩, ?_⟩, hwriting.keeps⟩
      · exact (life_cons_other (by simp [Event.node]) x.trace).trans hlife
      · exact absurd (done_performed hi rfl _) hnd
      · show [Event.stored io.coord io.data] ++ x.trace = _
        rw [hc hkey]
        rfl
      · rw [hlife]
        rfl
      · show Function.update x.database io.coord (some io.data) c = some io.data
        rw [hc hkey, Function.update_self]
  · refine ⟨fun hkey => ⟨k.addr, ?_⟩, h.justified⟩
    have hfound : record db c x.trace = found := (h.recorded c).symm.trans (hdb hkey)
    have hsame : Gated t io.coord k.addr [.serialized k.addr io.coord io.data, .loaded k.addr]
        (record db io.coord x.trace) x.trace := by
      rw [hc hkey, hfound]
      exact hgated
    exact hsame

theorem stories_writeFailed (h : Stories t db G x) (ho : x.Owned early) {i : Nat} {e : PoolTask}
    {io : IOTask} {status : Status} (hi : x.pool[i]? = some e) (hwrite : e.kind = .write)
    (hio : x.tasks e.task = some io) (hlegal : (Outcome.error status).Legal)
    (hstore : G.storeError) :
    Stories t db G ((x.performed i e (nodeWriteIOTask x.database io (.error status)).1
      (nodeWriteIOTask x.database io (.error status)).2.1).log
      (nodeWriteIOTask x.database io (.error status)).2.2) := by
  obtain ⟨c, k, hk, hτ, -, hst, hts, hwriting⟩ := h.writing ho hi hwrite hio
  have hcs := h.cell c k hk
  have hcoord := hcs.coord e.task io hτ hio
  obtain ⟨rest, hlife⟩ := hwriting.life
  refine h.change c (fun _ _ => rfl) ?_ (fun _ _ _ => rfl) (fun _ _ => rfl) h.recorded
    (fun hkey => h.keeps hkey c) (fun hv => ?_) (fun l hl => ?_) h.justified
  · refine unchanged_background [] ho hk hτ ?_ ?_ (fun _ _ _ => rfl) rfl ?_
    · intro σ hσ
      exact Function.update_of_ne hσ _ _
    · intro σ hσ
      exact performedIn_set hi hσ
    · intro e' he'
      cases he'
  · cases hk.symm.trans hv
  · cases hk.symm.trans hl
    refine ⟨hcs.scale, fun σ io'' hσ hio'' => ?_, ?_⟩
    · cases hτ.symm.trans hσ
      cases (Function.update_self (f := x.tasks) ..).symm.trans hio''
      exact hcoord
    · simp only [Story, hst, hts]
      refine ⟨e.task, _, hτ, Function.update_self .., ⟨rest, hlife⟩, fun hnd => ?_,
        fun hG => absurd hstore hG, fun _ _ hs => absurd hs hlegal.1, hwriting.keeps⟩
      exact absurd (done_performed hi rfl _) hnd

theorem stories_performWrite (h : Stories t db G x) (ho : x.Owned early) {i : Nat} {e : PoolTask}
    {io : IOTask} {outcome : Outcome} (hi : x.pool[i]? = some e) (hp : e.performed = false)
    (hwrite : e.kind = .write) (hio : x.tasks e.task = some io) (hlegal : outcome.Legal)
    (herr : outcome ≠ .ok → G.storeError) :
    Stories t db G ((x.performed i e (nodeWriteIOTask x.database io outcome).1
      (nodeWriteIOTask x.database io outcome).2.1).log
      (nodeWriteIOTask x.database io outcome).2.2) := by
  cases outcome with
  | ok => exact stories_written h ho hi hp hwrite hio
  | error status =>
    exact stories_writeFailed h ho hi hwrite hio hlegal (herr fun hne => by cases hne)

theorem stories_finish (h : Stories t db G x) (ho : x.Owned early) {i : Nat} {e : PoolTask}
    {io : IOTask} (hi : x.pool[i]? = some e) (hp : e.performed = true)
    (hio : x.tasks e.task = some io) :
    Stories t db G ((x.finished i e io).log [.finished e.task io.status io.data]) := by
  obtain ⟨c, k, io', hk, hτ, hio', -, -⟩ := ho.owner (List.mem_of_getElem? hi)
  cases hio.symm.trans hio'
  have hcs := h.cell c k hk
  have hdone : Done x e.task io := Or.inr ⟨e, List.mem_of_getElem? hi, rfl, hp⟩
  have hother : (Event.finished e.task io.status io.data).node ≠ some k.addr := by
    simp [Event.node]
  refine h.change c (fun _ _ => rfl) ?_ (fun _ _ _ => rfl) (fun _ _ => rfl) h.recorded
    (fun hkey => h.keeps hkey c) (fun hv => ?_) (fun l hl => ?_) ⟨trivial, h.justified⟩
  · refine unchanged_background [.finished e.task io.status io.data] ho hk hτ ?_ ?_
      (fun _ _ _ => rfl) rfl ?_
    · intro σ hσ
      exact Function.update_of_ne hσ _ _
    · intro σ hσ
      exact performedIn_eraseIdx hi hσ
    · intro e' he'
      cases List.mem_singleton.mp he'
      rfl
  · cases hk.symm.trans hv
  · cases hk.symm.trans hl
    refine ⟨hcs.scale, fun σ io'' hσ hio'' => ?_, ?_⟩
    · cases hτ.symm.trans hσ
      cases (Function.update_self (f := x.tasks) ..).symm.trans hio''
      exact hcs.coord e.task io hτ hio
    · have hstory := hcs.story
      rcases owner_phase ho hk hτ with ⟨hst, hts⟩ | ⟨hst, hts⟩ | ⟨hst, hts⟩
      · simp only [Story, hst, hts] at hstory ⊢
        obtain ⟨σ, io'', hσ, hio'', hr⟩ := hstory
        cases hτ.symm.trans hσ
        cases hio.symm.trans hio''
        refine ⟨e.task, _, hτ, Function.update_self .., ?_, fun _ => ?_, hr.status,
          fun hkey _ => hr.result hkey hdone, hr.settled.congr (fun _ => rfl) rfl⟩
        · exact (life_cons_other hother x.trace).trans hr.life
        · exact ⟨[], x.trace, rfl, hr.life⟩
      · simp only [Story, hst, hts] at hstory ⊢
        obtain ⟨σ, io'', hσ, hio'', hw⟩ := hstory
        cases hτ.symm.trans hσ
        cases hio.symm.trans hio''
        obtain ⟨rest, hlife⟩ := hw.life
        refine ⟨e.task, _, hτ, Function.update_self .., ⟨rest, ?_⟩, fun hnd => ?_, hw.status,
          fun hkey _ hs => ?_, hw.keeps⟩
        · exact (life_cons_other hother x.trace).trans hlife
        · exact absurd (Or.inl rfl) hnd
        · obtain ⟨hstored, hdb⟩ := hw.stored hkey hdone hs
          exact ⟨hstored.append [.finished e.task io.status io.data], hdb⟩
      · rcases hst with hst | hst <;> simp only [Story, hst, hts] <;> intro hnone <;>
          rw [hτ] at hnone <;> cases hnone

/-! ### Runs -/

theorem move_stories (hG : G.Checked) (h : Stories t db G x) (ho : x.Owned early)
    (hm : Move t G x x') : Stories t db G x' := by
  cases hm with
  | edit body hk => exact stories_edit h ho hk body
  | create hlt hc hfresh => exact stories_create h hlt hc hfresh
  | mark hk hst => exact stories_mark h ho hk hst
  | startRead hk hst hts _ hfresh => exact stories_startRead h ho hk hst hts hfresh
  | finishRead seed hk hst hts hτ hio hfin hbad =>
    exact stories_finishRead h ho hG hk hst hts hτ hio hfin hbad seed
  | load hk hst hready => exact stories_load h ho hk hst hready
  | startWrite hk hst hts hnone hfresh => exact stories_startWrite h ho hk hst hts hnone hfresh
  | @destroy c k hk hst hts =>
    have hstory := (h.cell c k hk).story
    simp only [Story, hst, hts] at hstory
  | destroyWritten hk hst hts hτ hio hfin hbad =>
    exact stories_destroyWritten h ho hG hk hst hts hτ hio hfin hbad
  | performRead outcome hi _ hread hio hlegal herr =>
    exact stories_performRead h ho hi hread hio hlegal herr
  | performWrite outcome hi hp hwrite hio hlegal herr =>
    exact stories_performWrite h ho hi hp hwrite hio hlegal herr
  | finish hi hp hio => exact stories_finish h ho hi hp hio

theorem stories_initial (t : TypeData D) (db : NodeCoord → Option Bytes) (G : Guard) :
    Stories t db G (view (initial D db).config) where
  recorded c := rfl
  keeps hkey := hkey.initial
  vacant c _ hkey := rfl
  cell c k hk := by
    obtain ⟨n, hat, -⟩ := at_of_cell (w := (initial D db).world) (c := c) hk
    cases hat.heap
  justified := trivial

/-- In every state of a checked run of a local world the stories of all nodes hold. -/
theorem reach_stories {m : State D} (hl : t.localNode = true) (hG : G.Checked)
    (h : (worldMachine t db).Reach G.Admits m) :
    Sound t G m.world ∧ Stories t db G (view m.config) := by
  refine reach_invariant (I := fun c => Stories t db G (view c)) (stories_initial t db G) ?_ h
  intro c c' hs hc he
  rcases effect_move hl hs he with hsame | hmove
  · rw [hsame]
    exact hc
  · exact move_stories hG hc (owned_of_sound hs c.2) hmove

end CosmicArchitect.Spatial3D
