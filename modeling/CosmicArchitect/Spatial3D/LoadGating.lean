import CosmicArchitect.Spatial3D.StoryMoves
import CosmicArchitect.Spatial3D.TaskStates

/-!
# Loads wait for their read

In runs that never poll an unfinished read a node is loaded only after its read finished
and all callbacks of one kind ran once. A poll of an unfinished read breaks this, because
`ProgressNodeReadTask` then returns true.
-/

namespace CosmicArchitect.Spatial3D
open Serialize

variable {D : Type} {t : TypeData D} {db : NodeCoord → Option Bytes} {m : State D}

/- What must have happened to the node at `a` before it is loaded: it was created, its read
   was started and finished, and then all deserialize callbacks ran on the bytes read or all
   generate callbacks ran, each once. Nothing else happened to the node. -/
def ReadGated (t : TypeData D) (a : Nat) (older : List Event) : Prop :=
  ∃ c τ io, FinishedIn a c τ io older ∧
    ((io.status = .success ∧ life a older =
        (t.deserializeEvents a c io.data).reverse ++ [.readStarted a τ, .created a c]) ∨
      (io.status = .notFoundError ∧ life a older =
        (t.generateEvents a c).reverse ++ [.readStarted a τ, .created a c]))

theorem readGated_of_gated {c : NodeCoord} {a : Nat} {found : Option Bytes} {older : List Event}
    (h : Gated t c a [] found older) : ReadGated t a older := by
  obtain ⟨τ, io, hfin, hfound, hlife⟩ := h
  refine ⟨c, τ, io, hfin, ?_⟩
  rcases hfound with ⟨hst, -⟩ | ⟨hst, -⟩
  · simp only [readEvents, hst] at hlife
    exact Or.inl ⟨hst, hlife⟩
  · simp only [readEvents, hst] at hlife
    exact Or.inr ⟨hst, hlife⟩

def Guard.gated : Guard := ⟨False, True, True, False⟩

theorem gated_admits {l : Label D} (h : ¬ PollsUnfinishedRead m l ∧ ¬ StoreFails l) :
    Guard.gated.Admits m l :=
  ⟨h.1, fun _ => trivial, fun _ => trivial, h.2⟩

theorem gated_checked : Guard.gated.Checked := fun _ h => h

/- In a run that never polls an unfinished read, and in which the database fails only with
   NOT_FOUND, every load of a node was gated by its read, and a Loaded node was loaded so. -/
theorem load_gated (hl : t.localNode = true)
    (h : (worldMachine t db).Reach (fun m l => ¬ PollsUnfinishedRead m l ∧ ¬ StoreFails l) m) :
    (∀ newer older a, m.trace = newer ++ .loaded a :: older → ReadGated t a older) ∧
    (∀ a n, m.world.heap a = some n → n.state = .loaded →
      ∃ newer older, m.trace = newer ++ .loaded a :: older ∧
        life a m.trace = .loaded a :: life a older) := by
  obtain ⟨hsound, hstories⟩ := reach_stories hl gated_checked (h.mono fun _ _ => gated_admits)
  constructor
  · intro newer older a htr
    have hjust := hstories.justified
    have hsplit : Justified t db Guard.gated (newer ++ .loaded a :: older) := by
      rw [← htr]
      exact hjust
    rcases hsplit.split with hearly | ⟨c, found, hgated⟩
    · exact hearly.elim
    · exact readGated_of_gated hgated
  · intro a n hn hst
    obtain ⟨c, k, hk, rfl, hhold⟩ := hsound.cell_of_hold (hold_of_heap hn)
    have hstory := (hstories.cell c k hk).story
    have hshape := hsound.holds.shape (hold_of_heap hn)
    have hkst : k.state = .loaded := (congrArg Hold.state hhold).trans hst
    have hkts : k.taskState = n.taskState := congrArg Hold.taskState hhold
    have hktask : k.task = n.task := congrArg Hold.task hhold
    cases hts : n.taskState <;> simp only [Shape, Node.hold, hst, hts] at hshape
    rw [hts] at hkts
    simp only [Story, hkst, hkts] at hstory
    have hnone : n.task = none := by
      rcases hshape with hnone | hearly
      · exact hnone
      · exact hearly.elim
    obtain ⟨found, ⟨τ, io, -, -, hlife⟩, -⟩ := hstory (hktask.trans hnone)
    obtain ⟨newer, older, htr, holder⟩ := split_of_life hlife rfl
    exact ⟨newer, older, htr, by rw [holder]; exact hlife⟩

theorem load_gated_loadRun :
    ∃ m, (worldMachine Universe.universeType fun _ => none).exec (initial _ fun _ => none)
        loadRun = some m ∧
      (∀ newer older a, m.trace = newer ++ .loaded a :: older →
        ReadGated Universe.universeType a older) ∧
      (∀ a n, m.world.heap a = some n → n.state = .loaded →
        ∃ newer older, m.trace = newer ++ .loaded a :: older ∧
          life a m.trace = .loaded a :: life a older) := by
  obtain ⟨m, hm⟩ := Option.isSome_iff_exists.mp
    (show ((worldMachine Universe.universeType fun _ => none).exec (initial _ fun _ => none)
      loadRun).isSome = true from by decide)
  exact ⟨m, hm, load_gated rfl (.exec (.init rfl) (by decide +kernel) hm)⟩

/-- The node of `earlyLoadRun` is loaded although its read has not finished. -/
theorem earlyLoad_not_gated :
    ∃ m older, (worldMachine Universe.universeType fun _ => none).Reach
        (fun _ l => ¬ StoreFails l) m ∧
      m.trace = .loaded 0 :: older ∧ ¬ ReadGated Universe.universeType 0 older := by
  obtain ⟨m, hm, htr⟩ := Option.map_eq_some_iff.mp
    (show ((worldMachine Universe.universeType fun _ => none).exec (initial _ fun _ => none)
      earlyLoadRun).map State.trace =
      some [.loaded 0, .readStarted 0 0, .created 0 ⟨⟨0, 0, 0⟩, 0⟩] from by decide)
  refine ⟨m, _, .exec (.init rfl) (by decide +kernel) hm, htr, ?_⟩
  intro hgated
  obtain ⟨c, τ, io, ⟨newer, older, hsplit, -⟩, -⟩ := hgated
  have hmem : Event.finished τ io.status io.data ∈
      [Event.readStarted 0 0, .created 0 ⟨⟨0, 0, 0⟩, 0⟩] := by
    rw [hsplit]
    exact List.mem_append_right _ (List.mem_cons_self ..)
  simp at hmem

end CosmicArchitect.Spatial3D
