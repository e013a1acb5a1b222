import CosmicArchitect.Spatial3D.Cells
import CosmicArchitect.Spatial3D.History

/-!
# The story of every node

`Story` says for each phase of a node what its history is, what its task has done so far
and how the record of its coordinate stands. Every move keeps the stories of all nodes and
adds only events to the history that are justified by what happened before.
-/

namespace CosmicArchitect.Spatial3D
open Serialize

variable {D : Type}

/-! ### Ownership seen from the cells -/

structure Cells.Owned (early : Prop) (x : Cells D) : Prop where
  addr : ∀ {c d k l}, x.cell c = some k → x.cell d = some l → k.addr = l.addr → c = d
  shape : ∀ {c k}, x.cell c = some k → Shape early k.hold
  exclusive : ∀ {c d k l τ}, x.cell c = some k → x.cell d = some l → k.task = some τ →
    l.task = some τ → c = d
  live : ∀ {c k τ}, x.cell c = some k → k.task = some τ → ∃ io, x.tasks τ = some io
  owner : ∀ {e}, e ∈ x.pool → ∃ c k io, x.cell c = some k ∧ k.task = some e.task ∧
    x.tasks e.task = some io ∧ io.finished = false ∧ e.kind = kindOf k.taskState
  single : ∀ {i j : Nat} {e f : PoolTask}, x.pool[i]? = some e → x.pool[j]? = some f → e.task = f.task → i = j

theorem Sound.cell_of_hold {t : TypeData D} {G : Guard} {w : World D} (hw : Sound t G w) {a : Nat}
    {h : Hold} (ha : w.hold a = some h) : ∃ c k, w.cell c = some k ∧ k.addr = a ∧ k.hold = h := by
  obtain ⟨n, hn, rfl⟩ := Option.map_eq_some_iff.mp ha
  obtain ⟨s, hs⟩ := hw.placed.stored (place_of_heap hn)
  exact ⟨⟨n.position, s⟩, n.cell a, cell_of_at ⟨hs, hn⟩, rfl, rfl⟩

theorem hold_of_cell {w : World D} {c : NodeCoord} {k : Cell D} (h : w.cell c = some k) :
    w.hold k.addr = some k.hold := by
  obtain ⟨n, hat, hk⟩ := at_of_cell h
  rw [hold_of_heap hat.heap]
  exact congrArg (fun k : Cell D => some k.hold) hk

theorem owned_of_sound {t : TypeData D} {G : Guard} {w : World D} (hw : Sound t G w)
    (tr : List Event) : (view (w, tr)).Owned G.unfinishedRead where
  addr := by
    intro c d k l hk hl hkl
    obtain ⟨n, hat, -⟩ := at_of_cell hk
    obtain ⟨m, hat', -⟩ := at_of_cell hl
    have hfind := hat'.find
    rw [← hkl] at hfind
    obtain ⟨hs, hp⟩ := hw.placed.unique hat.find hfind
    cases c
    cases d
    cases hs
    cases hp
    rfl
  shape hk := hw.holds.shape (hold_of_cell hk)
  exclusive := by
    intro c d k l τ hk hl hkτ hlτ
    have haddr := hw.holds.exclusive (hold_of_cell hk) (hold_of_cell hl) hkτ hlτ
    obtain ⟨n, hat, -⟩ := at_of_cell hk
    obtain ⟨m, hat', -⟩ := at_of_cell hl
    have hfind := hat'.find
    rw [← haddr] at hfind
    obtain ⟨hs, hp⟩ := hw.placed.unique hat.find hfind
    cases c
    cases d
    cases hs
    cases hp
    rfl
  live hk hτ := hw.holds.live (hold_of_cell hk) hτ
  owner := by
    intro e he
    obtain ⟨a, h, io, ha, hτ, hio, hfin, hkind⟩ := hw.holds.owner he
    obtain ⟨c, k, hk, -, rfl⟩ := hw.cell_of_hold ha
    exact ⟨c, k, io, hk, hτ, hio, hfin, hkind⟩
  single hi hj hef := hw.holds.index_unique hi hj hef

/-! ### Stories -/

/-- Reading the record leaves the scale index of a node of this coordinate as it is. -/
def KeepsScale (t : TypeData D) (c : NodeCoord) (data : Bytes) : Prop :=
  ∀ b : NodeBody D, b.scaleIndex = c.scaleIndex →
    (t.deserializeAll c.position data b).scaleIndex = c.scaleIndex

/- The callbacks of the type and the records the database was opened with keep the scale
   index, so that position and scale index of a node determine the key of its record. -/
structure Keyed (t : TypeData D) (db : NodeCoord → Option Bytes) : Prop where
  written : ∀ pos b, b.scaleIndex < t.maxScale →
    KeepsScale t ⟨pos, b.scaleIndex⟩ (t.serializeAll pos b)
  generated : ∀ seed pos b, (t.generateAll seed pos b).scaleIndex = b.scaleIndex
  initial : ∀ c data, db c = some data → KeepsScale t c data

/-- The database call of the task has returned. -/
def Done (x : Cells D) (τ : Nat) (io : IOTask) : Prop :=
  io.finished = true ∨ ∃ e ∈ x.pool, e.task = τ ∧ e.performed = true

section
variable (t : TypeData D) (db : NodeCoord → Option Bytes) (G : Guard) (x : Cells D)

/-- The record of the coordinate is what its last completed unload wrote. -/
def Settled (c : NodeCoord) : Prop :=
  Keyed t db → x.database c = (lastUnload c x.trace).or (db c)

structure Reading (c : NodeCoord) (a τ : Nat) (io : IOTask) : Prop where
  life : life a x.trace = [.readStarted a τ, .created a c]
  finished : io.finished = true → FinishedIn a c τ io x.trace
  status : ¬ G.storeError → io.status = .success ∨ io.status = .notFoundError
  result : Keyed t db → Done x τ io → (io.status = .success → x.database c = some io.data) ∧
    (io.status = .notFoundError → x.database c = none)
  settled : Settled t db x c

/-- The content of the node comes from the record of its coordinate. -/
def Sourced (c : NodeCoord) (a : Nat) (since : List Event) : Prop :=
  ∃ found, Gated t c a since found x.trace ∧ (Keyed t db → x.database c = found)

structure Writing (c : NodeCoord) (a τ : Nat) (io : IOTask) : Prop where
  life : ∃ rest, life a x.trace = .serialized a c io.data :: rest
  before : ¬ Done x τ io → Sourced t db x c a [.serialized a c io.data, .loaded a]
  status : ¬ G.storeError → io.status = .success
  stored : Keyed t db → Done x τ io → io.status = .success →
    StoredIn a c io.data x.trace ∧ x.database c = some io.data
  keeps : Keyed t db → KeepsScale t c io.data

def Story (c : NodeCoord) (k : Cell D) : Prop :=
  match k.state, k.taskState with
  | .loading, .idle => life k.addr x.trace = [.created k.addr c] ∧ Settled t db x c
  | .loading, .readInProgress =>
    ∃ τ io, k.task = some τ ∧ x.tasks τ = some io ∧ Reading t db G x c k.addr τ io
  | .loading, .readDone => Sourced t db x c k.addr []
  | .loaded, .idle => k.task = none → Sourced t db x c k.addr [.loaded k.addr]
  | .unloading, .idle => k.task = none → Sourced t db x c k.addr [.loaded k.addr]
  | .unloading, .writeInProgress =>
    ∃ τ io, k.task = some τ ∧ x.tasks τ = some io ∧ Writing t db G x c k.addr τ io
  | _, _ => False

structure CellStory (c : NodeCoord) (k : Cell D) : Prop where
  scale : Keyed t db → k.body.scaleIndex = c.scaleIndex ∧ c.scaleIndex < t.maxScale
  coord : ∀ τ io, k.task = some τ → x.tasks τ = some io →
    io.coord = ⟨c.position, k.body.scaleIndex⟩
  story : Story t db G x c k

/- What must have happened before an event. -/
def JustifiedEvent (older : List Event) : Event → Prop
  | .loaded a => G.unfinishedRead ∨ ∃ c found, Gated t c a [] found older
  | .deserialize _ c _ data => Keyed t db → (lastUnload c older).or (db c) = some data
  | .generate _ c _ => Keyed t db → (lastUnload c older).or (db c) = none ∧ record db c older = none
  | .stored c data => Keyed t db →
    ∃ a, Gated t c a [.serialized a c data, .loaded a] (record db c older) older
  | .destroyed a c => Keyed t db → ∃ data rest,
    life a older = .serialized a c data :: rest ∧ StoredIn a c data older
  | _ => True

def Justified : List Event → Prop
  | [] => True
  | e :: tr => JustifiedEvent t db G tr e ∧ Justified tr

structure Stories : Prop where
  recorded : ∀ c, x.database c = record db c x.trace
  keeps : Keyed t db → ∀ c data, x.database c = some data → KeepsScale t c data
  vacant : ∀ c, x.cell c = none → Settled t db x c
  cell : ∀ c k, x.cell c = some k → CellStory t db G x c k
  justified : Justified t db G x.trace

end

theorem Justified.split {t : TypeData D} {db : NodeCoord → Option Bytes} {G : Guard}
    {newer older : List Event} {e : Event} (h : Justified t db G (newer ++ e :: older)) :
    JustifiedEvent t db G older e := by
  induction newer with
  | nil => exact h.1
  | cons e' newer ih => exact ih h.2

/-! ### Coordinates a move is not about -/

variable {t : TypeData D} {db : NodeCoord → Option Bytes} {G : Guard} {x x' : Cells D}

/-- Nothing a story of the node `k` at `c` reads has changed. -/
structure Unchanged (t : TypeData D) (db : NodeCoord → Option Bytes) (x x' : Cells D)
    (c : NodeCoord) (k : Cell D) : Prop where
  trace : ∃ es, x'.trace = es ++ x.trace ∧ ∀ e ∈ es, e.node ≠ some k.addr
  tasks : ∀ τ, k.task = some τ → x'.tasks τ = x.tasks τ
  done : ∀ τ io, k.task = some τ → (Done x' τ io ↔ Done x τ io)
  database : Keyed t db → x'.database c = x.database c
  unload : lastUnload c x'.trace = lastUnload c x.trace

theorem Settled.congr {c : NodeCoord} (h : Settled t db x c)
    (hdb : Keyed t db → x'.database c = x.database c)
    (hunload : lastUnload c x'.trace = lastUnload c x.trace) : Settled t db x' c := by
  intro hkey
  rw [hdb hkey, hunload]
  exact h hkey

namespace Unchanged
variable {c : NodeCoord} {k : Cell D}

theorem life (h : Unchanged t db x x' c k) : life k.addr x'.trace = life k.addr x.trace := by
  obtain ⟨es, htr, hes⟩ := h.trace
  rw [htr, life_append_other hes]

theorem sourced (h : Unchanged t db x x' c k) {since : List Event}
    (hs : Sourced t db x c k.addr since) : Sourced t db x' c k.addr since := by
  obtain ⟨es, htr, hes⟩ := h.trace
  obtain ⟨found, hgated, hdb⟩ := hs
  refine ⟨found, ?_, fun hkey => (h.database hkey).trans (hdb hkey)⟩
  rw [htr]
  exact hgated.append hes

theorem reading (h : Unchanged t db x x' c k) {τ : Nat} {io : IOTask} (hτ : k.task = some τ)
    (hr : Reading t db G x c k.addr τ io) : Reading t db G x' c k.addr τ io where
  life := h.life.trans hr.life
  finished hfin := by
    obtain ⟨es, htr, -⟩ := h.trace
    rw [htr]
    exact (hr.finished hfin).append es
  status := hr.status
  result hkey hdone := by
    rw [h.database hkey]
    exact hr.result hkey ((h.done τ io hτ).mp hdone)
  settled := hr.settled.congr h.database h.unload

theorem writing (h : Unchanged t db x x' c k) {τ : Nat} {io : IOTask} (hτ : k.task = some τ)
    (hw : Writing t db G x c k.addr τ io) : Writing t db G x' c k.addr τ io where
  life := by
    rw [h.life]
    exact hw.life
  before hdone := h.sourced (hw.before fun hd => hdone ((h.done τ io hτ).mpr hd))
  status := hw.status
  stored hkey hdone hst := by
    obtain ⟨es, htr, -⟩ := h.trace
    obtain ⟨hstored, hdb⟩ := hw.stored hkey ((h.done τ io hτ).mp hdone) hst
    rw [h.database hkey, htr]
    exact ⟨hstored.append es, hdb⟩
  keeps := hw.keeps

theorem story (h : Unchanged t db x x' c k) (hs : Story t db G x c k) : Story t db G x' c k := by
  unfold Story at hs ⊢
  cases hst : k.state <;> cases hts : k.taskState <;> simp only [hst, hts] at hs ⊢
  case loading.idle => exact ⟨h.life.trans hs.1, hs.2.congr h.database h.unload⟩
  case loading.readInProgress =>
    obtain ⟨τ, io, hτ, hio, hr⟩ := hs
    exact ⟨τ, io, hτ, (h.tasks τ hτ).trans hio, h.reading hτ hr⟩
  case loading.readDone => exact h.sourced hs
  case loaded.idle => exact fun hnone => h.sourced (hs hnone)
  case unloading.idle => exact fun hnone => h.sourced (hs hnone)
  case unloading.writeInProgress =>
    obtain ⟨τ, io, hτ, hio, hw⟩ := hs
    exact ⟨τ, io, hτ, (h.tasks τ hτ).trans hio, h.writing hτ hw⟩

theorem cellStory (h : Unchanged t db x x' c k) (hs : CellStory t db G x c k) :
    CellStory t db G x' c k where
  scale := hs.scale
  coord τ io hτ hio := hs.coord τ io hτ ((h.tasks τ hτ).symm.trans hio)
  story := h.story hs.story

end Unchanged

/- A move about the coordinate `c` keeps the stories of all others; what is left to show is
   the story of `c` and that the new events are justified. -/
theorem Stories.change (h : Stories t db G x) (c : NodeCoord)
    (hcell : ∀ d, d ≠ c → x'.cell d = x.cell d)
    (hunchanged : ∀ d l, d ≠ c → x.cell d = some l → Unchanged t db x x' d l)
    (hdb : Keyed t db → ∀ d, d ≠ c → x'.database d = x.database d)
    (hunload : ∀ d, d ≠ c → lastUnload d x'.trace = lastUnload d x.trace)
    (hrecord : ∀ d, x'.database d = record db d x'.trace)
    (hkeeps : Keyed t db → ∀ data, x'.database c = some data → KeepsScale t c data)
    (hvacant : x'.cell c = none → Settled t db x' c)
    (hown : ∀ k, x'.cell c = some k → CellStory t db G x' c k)
    (hjust : Justified t db G x'.trace) : Stories t db G x' where
  recorded := hrecord
  keeps hkey d data hd := by
    by_cases hdc : d = c
    · subst hdc
      exact hkeeps hkey data hd
    · rw [hdb hkey d hdc] at hd
      exact h.keeps hkey d data hd
  vacant d hd := by
    by_cases hdc : d = c
    · subst hdc
      exact hvacant hd
    · rw [hcell d hdc] at hd
      exact (h.vacant d hd).congr (fun hkey => hdb hkey d hdc) (hunload d hdc)
  cell d k hd := by
    by_cases hdc : d = c
    · subst hdc
      exact hown k hd
    · rw [hcell d hdc] at hd
      exact (hunchanged d k hdc hd).cellStory (h.cell d k hd)
  justified := hjust

end CosmicArchitect.Spatial3D
