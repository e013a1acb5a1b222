import CosmicArchitect.Commands.CommandCounts
import CosmicArchitect.Library.Endless

/-!
# The loop of `FlushState` (Commands/CommandServer.cpp)

Whether a flush of a queue ends, whatever the clock shows and whichever objects are deleted
meanwhile. A buffer of Godot commands that gives up before its last command goes on reporting
commands that no batch takes away, and one with a command without arguments stops the process.
-/

namespace CosmicArchitect.CommandServer
open Commands Library
open GodotCommandBuffer (filled Processed Supported processCommands_end)

variable {κ : Type} {H : CommandHeader} {G : GodotTypes}

/-! ### Buffers -/

/-- Each command has arguments, and none but the last has more than 16. -/
def Passable (l : List (Addition H G)) : Prop :=
  (∀ a ∈ l, 1 ≤ a.args.length) ∧ ∀ a ∈ l.dropLast, a.args.length ≤ 16

/-- Every batch takes commands from the buffer until there are none. -/
def Finishing (H : CommandHeader) (G : GodotTypes) : CommandBufferEntry κ → Prop
  | .typed buffer => buffer.WellFormed
  | .godot buffer => ∃ (l : List (Addition H G)) (count : Nat), Processed l count buffer ∧
    Passable l

/-- `m_start` is at the end, but commands are counted. -/
def Stuck : CommandBufferEntry κ → Prop
  | .typed _ => False
  | .godot buffer => buffer.start = buffer.data.length ∧ 0 < buffer.numCommands

/-- The buffer is stuck, or will stop the process, or has commands behind one with too many
arguments. -/
def Doomed (H : CommandHeader) (G : GodotTypes) (b : CommandBufferEntry κ) : Prop :=
  Stuck b ∨ ∃ l : List (Addition H G), b = .godot (filled l) ∧ ¬ Passable l

/-- No batch stops the process. -/
def Unstopped (H : CommandHeader) (G : GodotTypes) : CommandBufferEntry κ → Prop
  | .typed buffer => buffer.WellFormed
  | .godot buffer => buffer.start = buffer.data.length ∨
    ∃ (l : List (Addition H G)) (count : Nat), Processed l count buffer ∧
      ∀ a ∈ l, 1 ≤ a.args.length

theorem passable_of_supported {l : List (Addition H G)} (h : Supported l) : Passable l :=
  ⟨fun a ha => (h a ha).1, fun a ha => (h a (List.dropLast_subset l ha)).2⟩

theorem mem_dropLast_of_take {α : Type} {l : List α} {count n : Nat} (hlt : count + n < l.length)
    {a : α} (ha : a ∈ ((l.drop count).take n).getLast?) : a ∈ l.dropLast := by
  have hmem : a ∈ (l.drop count).take n := List.mem_of_getLast? ha
  rw [List.take_drop] at hmem
  have hprefix : l.take (count + n) <+: l.take (l.length - 1) :=
    List.take_prefix_take_left (by omega)
  rw [List.dropLast_eq_take]
  exact hprefix.subset (List.mem_of_mem_drop hmem)

theorem Finishing.processCommands {b : CommandBufferEntry κ} (h : Finishing H G b)
    (hpos : 0 < b.numCommands) (max : Nat) :
    ∃ b' n, b.processCommands H G max = some (b', n) ∧ Finishing H G b' ∧ 0 < n := by
  cases b with
  | typed buffer =>
    obtain ⟨b', taken, -, hlength, hprocess, hwf, -⟩ :=
      TCommandBuffer.WellFormed.processCommandsUntyped h max
    refine ⟨.typed b', taken.length, ?_, hwf, ?_⟩
    · rw [CommandBufferEntry.processCommands, hprocess, Option.map_some]
    · have hremaining : 0 < buffer.remaining.length := by
        rw [← TCommandBuffer.WellFormed.numCommands h]
        exact hpos
      rw [hlength, TCommandBuffer.batch]
      split <;> omega
  | godot buffer =>
    obtain ⟨l, count, hprocessed, hl⟩ := h
    obtain ⟨b', n, calls, hprocess, hn, hsome, hnum, hdata, hstop⟩ :=
      (hprocessed.batch_counts max).resolve_left fun habort => by
        obtain ⟨-, a, ha, hnone⟩ := habort
        have harguments := hl.1 a ha
        omega
    refine ⟨.godot b', n, ?_, ⟨l, count + n, ?_, hl⟩, hsome hpos⟩
    · rw [CommandBufferEntry.processCommands, hprocess, Option.map_some]
    · rcases hstop with hstop | ⟨hend, a, ha, hmany⟩
      · exact hstop
      · -- only behind the last command can the loop have given up
        have hall : count + n = l.length := by
          by_contra hne
          exact hmany (hl.2 a (mem_dropLast_of_take (by omega) ha))
        have hfull : b'.data = (filled l).data := hdata.trans hprocessed.data
        have hcount := hprocessed.numCommands
        refine ⟨hn, hfull, ?_, by omega⟩
        rw [hend, hfull, hall, List.take_length]

theorem Doomed.numCommands_pos {b : CommandBufferEntry κ} (h : Doomed H G b) :
    0 < b.numCommands := by
  rcases h with hstuck | ⟨l, rfl, hl⟩
  · cases b with
    | typed buffer => exact hstuck.elim
    | godot buffer => exact hstuck.2
  · have hcount := (GodotCommandBuffer.filled_processed l).numCommands
    have hne : l ≠ [] := by
      rintro rfl
      exact hl (passable_of_supported fun a ha => absurd ha List.not_mem_nil)
    have hlength := List.length_pos_iff.mpr hne
    show 0 < (filled l).numCommands
    omega

/-- All commands at once stop the process or leave a doomed buffer stuck. -/
theorem Doomed.processCommands {b b' : CommandBufferEntry κ} (h : Doomed H G b) {n : Nat}
    (hprocess : b.processCommands H G processAllCommands = some (b', n)) : Stuck b' := by
  rcases h with hstuck | ⟨l, rfl, hl⟩
  · cases b with
    | typed buffer => exact hstuck.elim
    | godot buffer =>
      rw [CommandBufferEntry.processCommands, processCommands_end hstuck.1] at hprocess
      cases hprocess
      exact hstuck
  · obtain ⟨l', a, l'', rfl, hl', ha⟩ :=
      GodotCommandBuffer.exists_unsupported l fun h => hl (passable_of_supported h)
    rw [CommandBufferEntry.processCommands, processAllCommands] at hprocess
    rcases ha with hnone | hmany
    · rw [GodotCommandBuffer.processCommands_aborts l' a l'' hl' hnone] at hprocess
      cases hprocess
    · have hbehind : 0 < l''.length := by
        rw [List.length_pos_iff]
        rintro rfl
        refine hl ⟨fun a' ha' => ?_, fun a' ha' => ?_⟩
        · rcases List.mem_append.mp ha' with ha' | ha'
          · exact (hl' a' ha').1
          · cases List.mem_singleton.mp ha'
            omega
        · rw [List.dropLast_concat] at ha'
          exact (hl' a' ha').2
      rw [GodotCommandBuffer.processCommands_givesUp l' a l'' hl' hmany] at hprocess
      cases hprocess
      exact ⟨rfl, hbehind⟩

theorem Unstopped.processCommands {b : CommandBufferEntry κ} (h : Unstopped H G b) (max : Nat) :
    ∃ b' n, b.processCommands H G max = some (b', n) ∧ Unstopped H G b' := by
  cases b with
  | typed buffer =>
    obtain ⟨b', taken, -, -, hprocess, hwf, -⟩ :=
      TCommandBuffer.WellFormed.processCommandsUntyped h max
    exact ⟨.typed b', _, by rw [CommandBufferEntry.processCommands, hprocess, Option.map_some], hwf⟩
  | godot buffer =>
    rcases h with hend | ⟨l, count, hprocessed, hl⟩
    · refine ⟨.godot buffer, 0, ?_, Or.inl hend⟩
      rw [CommandBufferEntry.processCommands, processCommands_end hend, Option.map_some]
    · obtain ⟨b', n, calls, hprocess, -, -, -, -, hstop⟩ :=
        (hprocessed.batch_counts max).resolve_left fun habort => by
          obtain ⟨-, a, ha, hnone⟩ := habort
          have harguments := hl a ha
          omega
      refine ⟨.godot b', n, ?_, hstop.symm.imp And.left fun hstop => ⟨l, count + n, hstop, hl⟩⟩
      rw [CommandBufferEntry.processCommands, hprocess, Option.map_some]

namespace State
variable {m m' : State κ} {f : Flush κ} {e : Entry κ} {dropped : Nat} {objectOverride : Bool}

def HasObject (m : State κ) (objectOverride : Bool) (e : Entry κ) : Prop :=
  (objectOverride || m.alive e.objectId) = true

/-- Nothing is added meanwhile; what the flush executes may delete objects. -/
def Quiet : Label κ H G → Prop
  | .flush _ => True
  | .deleteObject _ => True
  | _ => False

def AtHead (m : State κ) : Prop := ∃ f ∈ m.flush, f.place matches .buffers

/-- A flush goes on until it has returned, and returns whatever the clock shows; each turn of its
loop that leads to another takes commands away. -/
structure FlushEnds (H : CommandHeader) (G : GodotTypes) (m : State κ) : Prop where
  goesOn : ∀ (ls : List (Label κ H G)) (m' : State κ), (∀ l ∈ ls, Quiet l) →
    (serverMachine H G m.alive).exec m ls = some m' → m'.flush ≠ none →
      ∀ now, ∃ m'', m'.step (.flush now : Label κ H G) = some m''
  ends : ∀ r : (serverMachine H G m.alive).Endless, r.state 0 = m → (∀ n, Quiet (r.label n)) →
    ¬ r.Recurs fun _ l => ∃ now, l = .flush now
  advances : ∀ (ls ls' : List (Label κ H G)) (m₁ m₂ : State κ), (∀ l ∈ ls, Quiet l) →
    (∀ l ∈ ls', Quiet l) → (serverMachine H G m.alive).exec m ls = some m₁ →
      (serverMachine H G m.alive).exec m₁ ls' = some m₂ → m₁.AtHead → m₂.AtHead →
        (∃ now, .flush now ∈ ls') → m₂.outstanding < m₁.outstanding

theorem inProgress_of_finished {numCommands : Nat} {bufferInProgress : Bool}
    (h : (if numCommands = 0 then false else bufferInProgress) = true) :
    bufferInProgress = true := by
  split at h
  · cases h
  · exact h

/-- A flush that no batch stops has a next step. -/
theorem Counted.goesOn (h : Counted H G m dropped) (hflush : m.flush = some f)
    (hbatch : f.place ≠ .processCommands none) (now : Time) :
    ∃ m', m.step (.flush now : Label κ H G) = some m' := by
  have hfits := h.fits
  rw [place_flush hflush] at hfits
  rw [State.step, hflush, Option.bind_some, State.flushNext]
  cases hplace : f.place with
  | buffers | flushed | processed => exact ⟨_, rfl⟩
  | time =>
    rw [hplace] at hfits
    obtain ⟨-, e, hcur, -⟩ := hfits
    exact ⟨_, by rw [hcur]; rfl⟩
  | object iterCommands =>
    rw [hplace] at hfits
    obtain ⟨-, e, hcur, -⟩ := hfits
    exact ⟨_, by rw [hcur]; rfl⟩
  | processCommands result =>
    rw [hplace] at hfits
    obtain ⟨-, e, hcur, -⟩ := hfits
    cases result with
    | none => exact absurd hplace hbatch
    | some result => exact ⟨_, by rw [hcur]; rfl⟩
  | numCommands =>
    rw [hplace] at hfits
    obtain ⟨e, hcur, -⟩ := hfits
    exact ⟨_, by rw [hcur]; rfl⟩

/-! ### Flushes that end -/

/-- All that the flush meets is processed to its end. -/
structure Served (H : CommandHeader) (G : GodotTypes) (objectOverride : Bool) (m : State κ) :
    Prop where
  override : ∀ f ∈ m.flush, f.objectOverride = objectOverride
  queue : ∀ e ∈ m.commandBuffers, m.HasObject objectOverride e → Finishing H G e.buffer
  current : m.bufferInProgress = true → ∀ e ∈ m.currentBuffer, m.HasObject objectOverride e →
    Finishing H G e.buffer
  batch : ∀ f ∈ m.flush, ∀ result, f.place = .processCommands result →
    ∃ buffer n, result = some (buffer, n) ∧ Finishing H G buffer ∧ 0 < n

/-- How far it is to the end of the turn; a turn that takes commands away starts anew. -/
def rank : Option (Flush κ) → Nat
  | none => 0
  | some f => match f.place with
    | .processed => 1
    | .flushed => 2
    | .processCommands .. => 3
    | .object _ => 4
    | .time => 5
    | .buffers => 6
    | .numCommands => 7

def variant (m : State κ) : Nat := 8 * m.outstanding + rank m.flush

theorem rank_le (flush : Option (Flush κ)) : rank flush ≤ 7 := by
  cases flush with
  | none => exact Nat.zero_le 7
  | some f =>
    rw [rank]
    split <;> omega

theorem variant_lt_of_rank (hleft : m'.outstanding = m.outstanding)
    (hrank : rank m'.flush < rank m.flush) : m'.variant < m.variant := by
  rw [variant, variant]
  omega

theorem variant_lt_of_outstanding (hleft : m'.outstanding < m.outstanding) :
    m'.variant < m.variant := by
  have hrank := rank_le m'.flush
  rw [variant, variant]
  omega

theorem Served.goto (h : Served H G objectOverride m) (hflush : m.flush = some f)
    {place : FlushPlace κ}
    (hbatch : ∀ result, place = .processCommands result →
      ∃ buffer n, result = some (buffer, n) ∧ Finishing H G buffer ∧ 0 < n) :
    Served H G objectOverride (m.goto f place) := by
  refine ⟨fun f' hf' => ?_, h.queue, h.current, fun f' hf' => ?_⟩
  · cases hf'
    exact h.override f hflush
  · cases hf'
    exact hbatch

theorem Served.fetch (h : Served H G objectOverride m) (hflush : m.flush = some f)
    (hplace : f.place = .buffers) :
    Served H G objectOverride (m.fetch f) ∧ (m.fetch f).variant < m.variant := by
  have hrank : rank m.flush = 6 := by rw [hflush, rank, hplace]
  constructor
  · rw [State.fetch]
    split
    · exact h.goto hflush fun _ hc => by cases hc
    · split
      · exact h.goto hflush fun _ hc => by cases hc
      · next e rest hbuffers =>
        have htaken : Served H G objectOverride { m with
            commandBuffers := rest, currentBuffer := some e, bufferInProgress := true } := by
          refine ⟨h.override, fun e' he' => h.queue e' ?_, fun _ e' he' => ?_, h.batch⟩
          · rw [hbuffers]
            exact List.mem_cons_of_mem e he'
          · cases he'
            exact h.queue e (by rw [hbuffers]; exact List.mem_cons_self)
        exact htaken.goto hflush fun _ hc => by cases hc
  · refine variant_lt_of_rank (outstanding_fetch m f) ?_
    rw [hrank, State.fetch]
    split
    · exact Nat.lt_succ_self 5
    · split
      · exact Nat.lt_of_sub_eq_succ rfl
      · exact Nat.lt_succ_self 5

theorem Served.checkTime (h : Served H G objectOverride m) (hflush : m.flush = some f)
    (hplace : f.place = .time) (e : Entry κ) (now : Time) :
    Served H G objectOverride (m.checkTime f e now) ∧
      (m.checkTime f e now).variant < m.variant := by
  have hrank : rank m.flush = 5 := by rw [hflush, rank, hplace]
  rw [State.checkTime]
  split
  · refine ⟨h.goto hflush (fun _ hc => by cases hc), variant_lt_of_rank rfl ?_⟩
    rw [hrank]
    exact Nat.lt_of_sub_eq_succ rfl
  · refine ⟨h.goto hflush (fun _ hc => by cases hc), variant_lt_of_rank rfl ?_⟩
    rw [hrank]
    exact Nat.lt_succ_self 4

theorem Served.lookupObject (h : Served H G objectOverride m) (hflush : m.flush = some f)
    {iterCommands : Nat} (hplace : f.place = .object iterCommands)
    (hprogress : m.bufferInProgress = true) (hcur : m.currentBuffer = some e)
    (hpos : 0 < e.buffer.numCommands) (hs : m.lookupObject H G f e iterCommands = m') :
    Served H G objectOverride m' ∧ m'.variant < m.variant := by
  have hrank : rank m.flush = 4 := by rw [hflush, rank, hplace]
  rw [State.lookupObject, h.override f hflush] at hs
  split at hs
  · next hobject =>
    have hfinishing := h.current hprogress e hcur hobject
    obtain ⟨b', n, hprocess, hfinishing', hn⟩ := hfinishing.processCommands hpos iterCommands
    rw [hprocess] at hs
    rw [← hs]
    refine ⟨h.goto hflush fun result hb => ?_, variant_lt_of_rank rfl ?_⟩
    · cases hb
      exact ⟨b', n, rfl, hfinishing', hn⟩
    · rw [hrank]
      exact Nat.lt_succ_self 3
  · have hcleared := outstanding_cleared hprogress hcur (some { e with buffer := e.buffer.clear })
    rw [← hs]
    have hgone : Served H G objectOverride { m with
        currentBuffer := some { e with buffer := e.buffer.clear }, bufferInProgress := false } :=
      ⟨h.override, h.queue, fun hp => absurd hp Bool.false_ne_true, h.batch⟩
    refine ⟨hgone.goto hflush (fun _ hc => by cases hc), variant_lt_of_outstanding ?_⟩
    show outstanding { m with
      currentBuffer := some { e with buffer := e.buffer.clear }, bufferInProgress := false } < _
    omega

theorem Served.finishBatch (h : Served H G objectOverride m) (hflush : m.flush = some f)
    {buffer : CommandBufferEntry κ} {n : Nat}
    (hplace : f.place = .processCommands (some (buffer, n)))
    (hprogress : m.bufferInProgress = true) (hcur : m.currentBuffer = some e)
    (hnum : buffer.numCommands + n = e.buffer.numCommands) :
    Served H G objectOverride (m.finishBatch f e buffer n) ∧
      (m.finishBatch f e buffer n).variant < m.variant := by
  obtain ⟨buffer', n', heq, hfinishing, hn⟩ := h.batch f hflush _ hplace
  cases heq
  have hleft := outstanding_finishBatch (f := f) hprogress hcur hnum
  refine ⟨⟨fun f' hf' => ?_, h.queue, fun _ e' he' _ => ?_, fun f' hf' _ hc => ?_⟩,
    variant_lt_of_outstanding (by omega)⟩
  · cases hf'
    exact h.override f hflush
  · cases he'
    exact hfinishing
  · cases hf'
    cases hc

theorem Served.finished (h : Served H G objectOverride m) (hflush : m.flush = some f)
    (hplace : f.place = .numCommands) (hcur : m.currentBuffer = some e) :
    Served H G objectOverride ({ m with
      bufferInProgress := if e.buffer.numCommands = 0 then false else m.bufferInProgress }.goto
        f .buffers) ∧
    ({ m with
      bufferInProgress := if e.buffer.numCommands = 0 then false else m.bufferInProgress }.goto
        f .buffers).variant < m.variant := by
  have hrank : rank m.flush = 7 := by rw [hflush, rank, hplace]
  have hdone : Served H G objectOverride { m with
      bufferInProgress := if e.buffer.numCommands = 0 then false else m.bufferInProgress } := by
    exact ⟨h.override, h.queue, fun hp => h.current (inProgress_of_finished hp), h.batch⟩
  refine ⟨hdone.goto hflush (fun _ hc => by cases hc),
    variant_lt_of_rank (outstanding_finished hcur) ?_⟩
  rw [hrank]
  exact Nat.lt_succ_self 6

theorem Served.flushNext (h : Served H G objectOverride m) (hcounted : Counted H G m dropped)
    (hflush : m.flush = some f) {now : Time} (hs : m.flushNext H G f now = some m') :
    Served H G objectOverride m' ∧ m'.variant < m.variant := by
  have hfits := hcounted.fits
  rw [place_flush hflush] at hfits
  rw [State.flushNext] at hs
  split at hs
  · next hplace =>
    cases hs
    exact h.fetch hflush hplace
  · next hplace =>
    obtain ⟨e, -, rfl⟩ := Option.map_eq_some_iff.mp hs
    exact h.checkTime hflush hplace e now
  · next hplace =>
    obtain ⟨e, hcur, hs⟩ := Option.map_eq_some_iff.mp hs
    rw [hplace] at hfits
    obtain ⟨hprogress, e', hcur', -, hpos⟩ := hfits
    cases hcur.symm.trans hcur'
    exact h.lookupObject hflush hplace hprogress hcur hpos hs
  · next hplace =>
    obtain ⟨e, hcur, hs⟩ := Option.bind_eq_some_iff.mp hs
    obtain ⟨⟨buffer, n⟩, rfl, rfl⟩ := Option.map_eq_some_iff.mp hs
    rw [hplace] at hfits
    obtain ⟨hprogress, e', hcur', hresult⟩ := hfits
    cases hcur.symm.trans hcur'
    exact h.finishBatch hflush hplace hprogress hcur (hresult buffer n rfl).2
  · next hplace =>
    obtain ⟨e, hcur, rfl⟩ := Option.map_eq_some_iff.mp hs
    exact h.finished hflush hplace hcur
  · next hplace =>
    cases hs
    have hrank : rank m.flush = 2 := by rw [hflush, rank, hplace]
    have hleft : Served H G objectOverride { m with flushingInProgress := false } :=
      ⟨h.override, h.queue, h.current, h.batch⟩
    refine ⟨hleft.goto hflush (fun _ hc => by cases hc), variant_lt_of_rank rfl ?_⟩
    rw [hrank]
    exact Nat.lt_succ_self 1
  · next hplace =>
    cases hs
    have hrank : rank m.flush = 1 := by rw [hflush, rank, hplace]
    refine ⟨⟨fun _ hc => (by cases hc), h.queue, h.current, fun _ hc => (by cases hc)⟩,
      variant_lt_of_rank rfl ?_⟩
    rw [hrank]
    exact Nat.zero_lt_one

theorem Served.deleteObject (h : Served H G objectOverride m) (objectId : ObjectID) :
    Served H G objectOverride { m with alive := fun o => o ≠ objectId && m.alive o } := by
  have hearlier : ∀ e : Entry κ, HasObject
      { m with alive := fun o => o ≠ objectId && m.alive o } objectOverride e →
        m.HasObject objectOverride e := by
    intro e he
    rw [HasObject, Bool.or_eq_true] at he ⊢
    exact he.imp_right fun halive => (Bool.and_eq_true_iff.mp halive).2
  exact ⟨h.override, fun e he hobject => h.queue e he (hearlier e hobject),
    fun hp e he hobject => h.current hp e he (hearlier e hobject), h.batch⟩

/-- Every step of the flush lowers the variant, and what comes between two of them keeps it. -/
theorem Served.step (h : Served H G objectOverride m) (hcounted : Counted H G m dropped)
    {l : Label κ H G} (hquiet : Quiet l) (hs : m.step l = some m') :
    Served H G objectOverride m' ∧ m'.variant ≤ m.variant ∧
      ((∃ now, l = .flush now) → m'.variant < m.variant) := by
  cases l with
  | addCommandBuffer objectId now buffer => exact hquiet.elim
  | flushState objectOverride' maxFlushTime now => exact hquiet.elim
  | flush now =>
    obtain ⟨f, hflush, hs⟩ := Option.bind_eq_some_iff.mp hs
    obtain ⟨h', hlt⟩ := h.flushNext hcounted hflush hs
    exact ⟨h', Nat.le_of_lt hlt, fun _ => hlt⟩
  | deleteObject objectId =>
    cases hs
    refine ⟨h.deleteObject objectId, Nat.le_refl _, fun hl => ?_⟩
    obtain ⟨now, hl⟩ := hl
    cases hl

theorem Served.run {alive : ObjectID → Bool} {ls : List (Label κ H G)} :
    ∀ {m : State κ} {dropped : Nat}, Served H G objectOverride m → Counted H G m dropped →
      (∀ l ∈ ls, Quiet l) → (serverMachine H G alive).exec m ls = some m' →
        Served H G objectOverride m' ∧ (∃ dropped, Counted H G m' dropped) ∧
          m'.variant ≤ m.variant ∧ ((∃ now, .flush now ∈ ls) → m'.variant < m.variant) := by
  induction ls with
  | nil =>
    intro m dropped h hcounted _ hs
    cases hs
    refine ⟨h, ⟨dropped, hcounted⟩, Nat.le_refl _, fun hl => ?_⟩
    obtain ⟨now, hl⟩ := hl
    cases hl
  | cons l ls ih =>
    intro m dropped h hcounted hquiet hs
    obtain ⟨m₁, hstep, hrest⟩ := Option.bind_eq_some_iff.mp hs
    obtain ⟨h₁, hle₁, hlt₁⟩ := h.step hcounted (hquiet l List.mem_cons_self) hstep
    obtain ⟨k, hcounted₁, -⟩ := hcounted.step hstep
    obtain ⟨h₂, hcounted₂, hle₂, hlt₂⟩ :=
      ih h₁ hcounted₁ (fun l' hl' => hquiet l' (List.mem_cons_of_mem l hl')) hrest
    refine ⟨h₂, hcounted₂, Nat.le_trans hle₂ hle₁, fun hl => ?_⟩
    obtain ⟨now, hl⟩ := hl
    rcases List.mem_cons.mp hl with hl | hl
    · exact Nat.lt_of_le_of_lt hle₂ (hlt₁ ⟨now, hl.symm⟩)
    · exact Nat.lt_of_lt_of_le (hlt₂ ⟨now, hl⟩) hle₁

theorem AtHead.variant (h : m.AtHead) : m.variant = 8 * m.outstanding + 6 := by
  obtain ⟨f, hflush, hplace⟩ := h
  have hbuffers : f.place = .buffers := by
    cases hp : f.place <;> rw [hp] at hplace <;> first | rfl | cases hplace
  rw [State.variant, Option.mem_def.mp hflush, rank, hbuffers]

theorem Served.flushEnds (h : Served H G objectOverride m) (hcounted : Counted H G m dropped) :
    FlushEnds H G m := by
  refine ⟨fun ls m' hquiet hs hflush now => ?_, fun r hr hquiet hrecurs => ?_,
    fun ls ls' m₁ m₂ hquiet hquiet' hs hs' hhead hhead' hflush => ?_⟩
  · obtain ⟨hserved, ⟨dropped', hcounted'⟩, -⟩ := h.run hcounted hquiet hs
    obtain ⟨f, hf⟩ := Option.ne_none_iff_exists'.mp hflush
    refine hcounted'.goesOn hf (fun hnone => ?_) now
    obtain ⟨buffer, n, hsome, -⟩ := hserved.batch f hf none hnone
    cases hsome
  · have hall : ∀ n, Served H G objectOverride (r.state n) ∧
        ∃ dropped, Counted H G (r.state n) dropped := by
      intro n
      induction n with
      | zero =>
        rw [hr]
        exact ⟨h, dropped, hcounted⟩
      | succ n ih =>
        obtain ⟨hn, dropped', hcounted'⟩ := ih
        obtain ⟨k, hcounted'', -⟩ := hcounted'.step (r.steps n)
        exact ⟨(hn.step hcounted' (hquiet n) (r.steps n)).1, _, hcounted''⟩
    have hstep : ∀ n, (r.state (n + 1)).variant ≤ (r.state n).variant ∧
        ((∃ now, r.label n = .flush now) → (r.state (n + 1)).variant < (r.state n).variant) := by
      intro n
      obtain ⟨hn, dropped', hcounted'⟩ := hall n
      exact (hn.step hcounted' (hquiet n) (r.steps n)).2
    have hmono : ∀ n k, (r.state (n + k)).variant ≤ (r.state n).variant := by
      intro n k
      induction k with
      | zero => exact Nat.le_refl _
      | succ k ih => exact Nat.le_trans (hstep (n + k)).1 ih
    have hnever := r.eventually (P := fun _ => False) variant (fun n _ => by
      obtain ⟨k, hk, hflush⟩ := hrecurs n
      obtain ⟨j, rfl⟩ := Nat.exists_eq_add_of_le hk
      exact ⟨n + j + 1, by omega, Nat.lt_of_lt_of_le ((hstep (n + j)).2 hflush) (hmono n j)⟩) 0
    obtain ⟨k, -, hk⟩ := hnever
    exact hk
  · obtain ⟨h₁, ⟨dropped₁, hcounted₁⟩, -⟩ := h.run hcounted hquiet hs
    obtain ⟨-, -, -, hlt⟩ := h₁.run hcounted₁ hquiet' hs'
    have hless := hlt hflush
    rw [hhead.variant, hhead'.variant] at hless
    omega

/-! ### Flushes that go on for ever -/

/-- What the place of the flush knows of a doomed buffer in progress. -/
def DoomedAt (H : CommandHeader) (G : GodotTypes) (e : Entry κ) : FlushPlace κ → Prop
  | .processCommands result => ∀ buffer n, result = some (buffer, n) → Stuck buffer
  | _ => Doomed H G e.buffer

/-- The flush is in its loop, and forced whenever it has looked at the time. -/
def InLoop : FlushPlace κ → Prop
  | .flushed | .processed => False
  | .object iterCommands => iterCommands = processAllCommands
  | _ => True

/-- The time limit is off for every buffer, and one of them is doomed. -/
structure Loops (H : CommandHeader) (G : GodotTypes) (objectOverride : Bool) (now : Time)
    (m : State κ) : Prop where
  inLoop : ∃ f ∈ m.flush, f.objectOverride = objectOverride ∧ InLoop f.place
  queue : ∀ e ∈ m.commandBuffers, now - e.addedTime > forceTime
  current : m.bufferInProgress = true → ∀ e ∈ m.currentBuffer, now - e.addedTime > forceTime
  doomed : (∃ e ∈ m.commandBuffers, m.HasObject objectOverride e ∧ Doomed H G e.buffer) ∨
    m.bufferInProgress = true ∧ ∃ e ∈ m.currentBuffer, m.HasObject objectOverride e ∧
      DoomedAt H G e m.place

variable {now : Time}

theorem Loops.goto (h : Loops H G objectOverride now m) (hflush : m.flush = some f)
    {place : FlushPlace κ} (hin : InLoop place)
    (hat : ∀ e ∈ m.currentBuffer, m.HasObject objectOverride e → DoomedAt H G e f.place →
      DoomedAt H G e place) : Loops H G objectOverride now (m.goto f place) := by
  obtain ⟨f', hf', hoverride, -⟩ := h.inLoop
  cases hflush.symm.trans hf'
  refine ⟨⟨_, rfl, hoverride, hin⟩, h.queue, h.current, h.doomed.imp_right fun hdoomed => ?_⟩
  obtain ⟨hprogress, e, hcur, hobject, hd⟩ := hdoomed
  rw [place_flush hflush] at hd
  exact ⟨hprogress, e, hcur, hobject, hat e hcur hobject hd⟩

theorem Loops.fetch (h : Loops H G objectOverride now m) (hflush : m.flush = some f)
    (hplace : f.place = .buffers) : Loops H G objectOverride now (m.fetch f) := by
  have hat : ∀ e : Entry κ, DoomedAt H G e f.place → DoomedAt H G e .time := by
    intro e hd
    rwa [hplace] at hd
  rw [State.fetch]
  split
  · exact h.goto hflush trivial fun e _ _ => hat e
  · next hprogress =>
    obtain ⟨e, he, hobject, hd⟩ := h.doomed.resolve_right fun hc => hprogress hc.1
    split
    · next hnil =>
      rw [hnil] at he
      cases he
    · next e' rest hbuffers =>
      have htaken : Loops H G objectOverride now { m with
          commandBuffers := rest, currentBuffer := some e', bufferInProgress := true } := by
        refine ⟨h.inLoop, fun e'' he'' => h.queue e'' ?_, fun _ e'' he'' => ?_, ?_⟩
        · rw [hbuffers]
          exact List.mem_cons_of_mem e' he''
        · cases he''
          exact h.queue e' (by rw [hbuffers]; exact List.mem_cons_self)
        · rw [hbuffers] at he
          rcases List.mem_cons.mp he with rfl | he
          · refine Or.inr ⟨rfl, e, rfl, hobject, ?_⟩
            show DoomedAt H G e ((m.flush.map Flush.place).getD .processed)
            rw [hflush, Option.map_some, Option.getD_some, hplace]
            exact hd
          · exact Or.inl ⟨e, he, hobject, hd⟩
      exact htaken.goto hflush trivial fun e _ _ => hat e

theorem Loops.checkTime (h : Loops H G objectOverride now m) (hflush : m.flush = some f)
    (hplace : f.place = .time) (hprogress : m.bufferInProgress = true)
    (hcur : m.currentBuffer = some e) :
    Loops H G objectOverride now (m.checkTime f e now) := by
  have hforce := h.current hprogress e hcur
  rw [State.checkTime]
  simp only [hforce, not_true, false_and, if_false, if_true]
  refine h.goto hflush rfl fun e _ _ hd => ?_
  rwa [hplace] at hd

theorem Loops.lookupObject (h : Loops H G objectOverride now m) (hflush : m.flush = some f)
    (hplace : f.place = .object processAllCommands) (hcur : m.currentBuffer = some e)
    (hs : m.lookupObject H G f e processAllCommands = m') :
    Loops H G objectOverride now m' := by
  obtain ⟨f', hf', hoverride, -⟩ := h.inLoop
  cases hflush.symm.trans hf'
  rw [State.lookupObject, hoverride] at hs
  split at hs
  · rw [← hs]
    refine h.goto hflush trivial fun e' hcur' _ hd => ?_
    cases hcur.symm.trans hcur'
    rw [hplace] at hd
    exact fun buffer n hprocess => Doomed.processCommands hd hprocess
  · next hgone =>
    cases hs
    have hqueue := h.doomed.resolve_right fun hc => by
      obtain ⟨-, e', hcur', hobject, -⟩ := hc
      cases hcur.symm.trans hcur'
      exact hgone hobject
    have hcleared : Loops H G objectOverride now { m with
        currentBuffer := some { e with buffer := e.buffer.clear }, bufferInProgress := false } :=
      ⟨h.inLoop, h.queue, fun hp => absurd hp Bool.false_ne_true, Or.inl hqueue⟩
    refine hcleared.goto hflush trivial fun e' _ _ hd => ?_
    rwa [hplace] at hd

theorem Loops.finishBatch (h : Loops H G objectOverride now m) (hflush : m.flush = some f)
    {buffer : CommandBufferEntry κ} {n : Nat}
    (hplace : f.place = .processCommands (some (buffer, n)))
    (hprogress : m.bufferInProgress = true) (hcur : m.currentBuffer = some e) :
    Loops H G objectOverride now (m.finishBatch f e buffer n) := by
  obtain ⟨f', hf', hoverride, -⟩ := h.inLoop
  cases hflush.symm.trans hf'
  refine ⟨⟨_, rfl, hoverride, trivial⟩, h.queue, fun _ e' he' => ?_,
    h.doomed.imp_right fun hdoomed => ?_⟩
  · cases he'
    exact h.current hprogress e hcur
  · obtain ⟨-, e', hcur', hobject, hd⟩ := hdoomed
    cases hcur.symm.trans hcur'
    rw [place_flush hflush, hplace] at hd
    exact ⟨hprogress, _, rfl, hobject, Or.inl (hd buffer n rfl)⟩

/-- A doomed buffer is never taken for a finished one. -/
theorem Loops.finished (h : Loops H G objectOverride now m) (hflush : m.flush = some f)
    (hplace : f.place = .numCommands) (hcur : m.currentBuffer = some e) :
    Loops H G objectOverride now ({ m with
      bufferInProgress := if e.buffer.numCommands = 0 then false else m.bufferInProgress }.goto
        f .buffers) := by
  have hdone : Loops H G objectOverride now { m with
      bufferInProgress := if e.buffer.numCommands = 0 then false else m.bufferInProgress } := by
    refine ⟨h.inLoop, h.queue, fun hp => h.current (inProgress_of_finished hp),
      h.doomed.imp_right fun hdoomed => ?_⟩
    obtain ⟨hprogress, e', hcur', hobject, hd⟩ := hdoomed
    cases hcur.symm.trans hcur'
    refine ⟨?_, e, hcur, hobject, hd⟩
    rw [place_flush hflush, hplace] at hd
    have hpos := Doomed.numCommands_pos hd
    exact (if_neg (by omega)).trans hprogress
  refine hdone.goto hflush trivial fun e _ _ hd => ?_
  rwa [hplace] at hd

theorem Loops.step (h : Loops H G objectOverride now m) (hcounted : Counted H G m dropped)
    (hs : m.step (.flush now : Label κ H G) = some m') : Loops H G objectOverride now m' := by
  obtain ⟨f, hflush, -, hin⟩ := h.inLoop
  have hfits := hcounted.fits
  rw [place_flush hflush] at hfits
  rw [State.step, hflush, Option.bind_some, State.flushNext] at hs
  split at hs
  · next hplace =>
    cases hs
    exact h.fetch hflush hplace
  · next hplace =>
    obtain ⟨e, hcur, rfl⟩ := Option.map_eq_some_iff.mp hs
    rw [hplace] at hfits
    exact h.checkTime hflush hplace hfits.1 hcur
  · next hplace =>
    obtain ⟨e, hcur, hs⟩ := Option.map_eq_some_iff.mp hs
    rw [hplace] at hin
    subst hin
    exact h.lookupObject hflush hplace hcur hs
  · next hplace =>
    obtain ⟨e, hcur, hs⟩ := Option.bind_eq_some_iff.mp hs
    obtain ⟨⟨buffer, n⟩, rfl, rfl⟩ := Option.map_eq_some_iff.mp hs
    rw [hplace] at hfits
    exact h.finishBatch hflush hplace hfits.1 hcur
  · next hplace =>
    obtain ⟨e, hcur, rfl⟩ := Option.map_eq_some_iff.mp hs
    exact h.finished hflush hplace hcur
  · next hplace =>
    rw [hplace] at hin
    exact hin.elim
  · next hplace =>
    rw [hplace] at hin
    exact hin.elim

/-- If the process is not stopped, the flush goes on for ever under a clock that stands still. -/
theorem Loops.endless (h : Loops H G objectOverride now m) (hcounted : Counted H G m dropped)
    {I : State κ → Prop} (hI : I m)
    (hgoesOn : ∀ m, I m → m.flush ≠ none → (∃ dropped, Counted H G m dropped) →
      ∃ m', m.step (.flush now : Label κ H G) = some m' ∧ I m') :
    ∃ r : (serverMachine H G m.alive).Endless, r.state 0 = m ∧ ∀ n, r.label n = .flush now := by
  refine Machine.Endless.exists_repeat
    (I := fun m => (∃ dropped, Counted H G m dropped) ∧ Loops H G objectOverride now m ∧ I m)
    (fun s hs => ?_) ⟨⟨dropped, hcounted⟩, h, hI⟩
  obtain ⟨⟨dropped', hcounted'⟩, hloops, hs⟩ := hs
  have hflush : s.flush ≠ none := by
    obtain ⟨f, hf, -⟩ := hloops.inLoop
    rw [Option.mem_def.mp hf]
    exact Option.some_ne_none f
  obtain ⟨s', hstep, hs'⟩ := hgoesOn s hs hflush ⟨dropped', hcounted'⟩
  obtain ⟨k, hcounted'', -⟩ := hcounted'.step hstep
  exact ⟨s', hstep, ⟨_, hcounted''⟩, hloops.step hcounted' hstep, hs'⟩

/-- The process is stopped, or the flush goes on for ever. -/
theorem Loops.not_flushEnds (h : Loops H G objectOverride now m)
    (hcounted : Counted H G m dropped) : ¬ FlushEnds H G m := by
  intro hends
  obtain ⟨r, hr, hlabel⟩ := h.endless hcounted
    (I := fun m' => ∃ ls : List (Label κ H G), (∀ l ∈ ls, Quiet l) ∧
      (serverMachine H G m.alive).exec m ls = some m')
    ⟨[], fun l hl => absurd hl List.not_mem_nil, rfl⟩ fun m' hm' hflush _ => by
      obtain ⟨ls, hquiet, hs⟩ := hm'
      obtain ⟨m'', hstep⟩ := hends.goesOn ls m' hquiet hs hflush now
      refine ⟨m'', hstep, ls ++ [.flush now], fun l hl => ?_, ?_⟩
      · rcases List.mem_append.mp hl with hl | hl
        · exact hquiet l hl
        · rw [List.mem_singleton.mp hl]
          trivial
      · exact Machine.exec_append hs (Option.bind_eq_some_iff.mpr ⟨m'', hstep, rfl⟩)
  refine hends.ends r hr (fun n => ?_) fun n => ⟨n, Nat.le_refl n, now, hlabel n⟩
  rw [hlabel n]
  trivial

/-- No buffer of the server stops the process. -/
structure Runs (H : CommandHeader) (G : GodotTypes) (m : State κ) : Prop where
  queue : ∀ e ∈ m.commandBuffers, Unstopped H G e.buffer
  current : m.bufferInProgress = true → ∀ e ∈ m.currentBuffer, Unstopped H G e.buffer
  batch : ∀ f ∈ m.flush, ∀ result, f.place = .processCommands result →
    ∃ buffer n, result = some (buffer, n) ∧ Unstopped H G buffer

theorem Runs.goto (h : Runs H G m) (f : Flush κ) {place : FlushPlace κ}
    (hbatch : ∀ result, place = .processCommands result →
      ∃ buffer n, result = some (buffer, n) ∧ Unstopped H G buffer) :
    Runs H G (m.goto f place) := by
  refine ⟨h.queue, h.current, fun f' hf' => ?_⟩
  cases hf'
  exact hbatch

theorem Runs.fetch (h : Runs H G m) (f : Flush κ) : Runs H G (m.fetch f) := by
  rw [State.fetch]
  split
  · exact h.goto f fun _ hc => by cases hc
  · split
    · exact h.goto f fun _ hc => by cases hc
    · next e rest hbuffers =>
      have htaken : Runs H G { m with
          commandBuffers := rest, currentBuffer := some e, bufferInProgress := true } := by
        refine ⟨fun e' he' => h.queue e' ?_, fun _ e' he' => ?_, h.batch⟩
        · rw [hbuffers]
          exact List.mem_cons_of_mem e he'
        · cases he'
          exact h.queue e (by rw [hbuffers]; exact List.mem_cons_self)
      exact htaken.goto f fun _ hc => by cases hc

theorem Runs.lookupObject (h : Runs H G m) (f : Flush κ) (hprogress : m.bufferInProgress = true)
    (hcur : m.currentBuffer = some e) (iterCommands : Nat) :
    Runs H G (m.lookupObject H G f e iterCommands) := by
  have hcurrent := h.current hprogress e hcur
  rw [State.lookupObject]
  split
  · obtain ⟨b', n, hprocess, hunstopped⟩ := hcurrent.processCommands iterCommands
    rw [hprocess]
    refine h.goto f fun result hb => ?_
    cases hb
    exact ⟨b', n, rfl, hunstopped⟩
  · have hgone : Runs H G { m with
        currentBuffer := some { e with buffer := e.buffer.clear }, bufferInProgress := false } :=
      ⟨h.queue, fun hp => absurd hp Bool.false_ne_true, h.batch⟩
    exact hgone.goto f fun _ hc => by cases hc

theorem Runs.flushNext (h : Runs H G m) (hcounted : Counted H G m dropped)
    (hflush : m.flush = some f) (hs : m.flushNext H G f now = some m') : Runs H G m' := by
  have hfits := hcounted.fits
  rw [place_flush hflush] at hfits
  rw [State.flushNext] at hs
  split at hs
  · cases hs
    exact h.fetch f
  · obtain ⟨e, -, rfl⟩ := Option.map_eq_some_iff.mp hs
    rw [State.checkTime]
    split
    · exact h.goto f fun _ hc => by cases hc
    · exact h.goto f fun _ hc => by cases hc
  · next hplace =>
    obtain ⟨e, hcur, rfl⟩ := Option.map_eq_some_iff.mp hs
    rw [hplace] at hfits
    exact h.lookupObject f hfits.1 hcur _
  · next hplace =>
    obtain ⟨e, hcur, hs⟩ := Option.bind_eq_some_iff.mp hs
    obtain ⟨⟨buffer, n⟩, rfl, rfl⟩ := Option.map_eq_some_iff.mp hs
    obtain ⟨buffer', n', heq, hunstopped⟩ := h.batch f hflush _ hplace
    cases heq
    have hdone : Runs H G { m with currentBuffer := some { e with buffer := buffer } } := by
      refine ⟨h.queue, fun _ e' he' => ?_, h.batch⟩
      cases he'
      exact hunstopped
    exact hdone.goto _ fun _ hc => by cases hc
  · obtain ⟨e, -, rfl⟩ := Option.map_eq_some_iff.mp hs
    have hdone : Runs H G { m with
        bufferInProgress := if e.buffer.numCommands = 0 then false else m.bufferInProgress } :=
      ⟨h.queue, fun hp => h.current (inProgress_of_finished hp), h.batch⟩
    exact hdone.goto f fun _ hc => by cases hc
  · cases hs
    have hleft : Runs H G { m with flushingInProgress := false } := ⟨h.queue, h.current, h.batch⟩
    exact hleft.goto f fun _ hc => by cases hc
  · cases hs
    exact ⟨h.queue, h.current, fun _ hc => by cases hc⟩

/-- With no buffer to stop the process, the flush does go on for ever. -/
theorem Loops.endless_of_runs (h : Loops H G objectOverride now m)
    (hcounted : Counted H G m dropped) (hruns : Runs H G m) :
    ∃ r : (serverMachine H G m.alive).Endless, r.state 0 = m ∧ ∀ n, r.label n = .flush now := by
  refine h.endless hcounted (I := Runs H G) hruns fun m' hruns' hflush hcounted' => ?_
  obtain ⟨f, hf⟩ := Option.ne_none_iff_exists'.mp hflush
  obtain ⟨dropped', hcounted'⟩ := hcounted'
  obtain ⟨m'', hstep⟩ := hcounted'.goesOn (H := H) (G := G) hf (fun hnone => by
    obtain ⟨buffer, n, hsome, -⟩ := hruns'.batch f hf none hnone
    cases hsome) now
  have hnext := hstep
  rw [State.step, hf, Option.bind_some] at hnext
  exact ⟨m'', hstep, hruns'.flushNext hcounted' hf hnext⟩

end State

/-! ### Queues -/

/-- What `AddCommand` was called with before a buffer is handed to the server. -/
inductive Contents (κ : Type) (H : CommandHeader) (G : GodotTypes)
  | typed (commands : List (Command κ))
  | godot (commands : List (Addition H G))

namespace Contents

def buffer : Contents κ H G → CommandBufferEntry κ
  | .typed commands => .typed (commands.foldl TCommandBuffer.addCommand {})
  | .godot commands => .godot (filled commands)

/-- Each Godot command has arguments, and none is behind one with more than 16. -/
def Finishes : Contents κ H G → Prop
  | .typed _ => True
  | .godot commands => (∀ a ∈ commands, 1 ≤ a.args.length) ∧
    ∀ a ∈ commands.dropLast, a.args.length ≤ 16

theorem wellFormed_addCommands (commands : List (Command κ)) :
    ∀ {b : TCommandBuffer κ}, b.WellFormed →
      (commands.foldl TCommandBuffer.addCommand b).WellFormed := by
  induction commands with
  | nil => exact fun h => h
  | cons c commands ih => exact fun h => ih (h.addCommand c).1

theorem valid (c : Contents κ H G) : c.buffer.Valid H G := by
  cases c with
  | typed commands => exact wellFormed_addCommands commands TCommandBuffer.wellFormed_empty
  | godot commands => exact Or.inr ⟨commands, 0, GodotCommandBuffer.filled_processed commands⟩

theorem Finishes.finishing {c : Contents κ H G} (h : c.Finishes) : Finishing H G c.buffer := by
  cases c with
  | typed commands => exact wellFormed_addCommands commands TCommandBuffer.wellFormed_empty
  | godot commands => exact ⟨commands, 0, GodotCommandBuffer.filled_processed commands, h⟩

theorem doomed {c : Contents κ H G} (h : ¬ c.Finishes) : Doomed H G c.buffer := by
  cases c with
  | typed commands => exact absurd trivial h
  | godot commands => exact Or.inr ⟨commands, rfl, h⟩

end Contents

/-- A call of `AddCommandBuffer`. -/
structure Added (κ : Type) (H : CommandHeader) (G : GodotTypes) where
  objectId : ObjectID
  addedTime : Time
  contents : Contents κ H G

def Added.entry (a : Added κ H G) : Entry κ := ⟨a.objectId, a.addedTime, a.contents.buffer⟩

namespace State
variable {m : State κ} {dropped : Nat}

def addAll (m : State κ) (added : List (Added κ H G)) : State κ :=
  added.foldl (fun m a => m.addCommandBuffer a.objectId a.addedTime a.contents.buffer) m

/-- The queue gets the buffers that are not empty, and nothing else changes. -/
theorem addAll_spec (added : List (Added κ H G)) :
    ∀ {m : State κ}, Counted H G m dropped → Counted H G (m.addAll added) dropped ∧
      (∀ e, e ∈ (m.addAll added).commandBuffers ↔ e ∈ m.commandBuffers ∨
        ∃ a ∈ added, a.entry = e ∧ e.buffer.numCommands ≠ 0) ∧
      (m.addAll added).alive = m.alive ∧ (m.addAll added).flush = m.flush ∧
      (m.addAll added).flushingInProgress = m.flushingInProgress ∧
      (m.addAll added).bufferInProgress = m.bufferInProgress := by
  induction added with
  | nil =>
    intro m h
    refine ⟨h, fun e => (or_iff_left ?_).symm, rfl, rfl, rfl, rfl⟩
    exact fun hc => absurd hc.choose_spec.1 List.not_mem_nil
  | cons a added ih =>
    intro m h
    obtain ⟨hcounted, hqueue, halive, hflush, hflushing, hprogress⟩ :=
      ih (h.addCommandBuffer a.objectId a.addedTime a.contents.valid)
    have hone : ∀ e,
        e ∈ (m.addCommandBuffer a.objectId a.addedTime a.contents.buffer).commandBuffers ↔
          e ∈ m.commandBuffers ∨ a.entry = e ∧ e.buffer.numCommands ≠ 0 := by
      intro e
      rw [addCommandBuffer]
      split
      · next hzero =>
        refine (or_iff_left fun hc => hc.2 ?_).symm
        rw [← hc.1]
        exact hzero
      · next hsome =>
        show e ∈ m.commandBuffers ++ [a.entry] ↔ _
        rw [List.mem_append, List.mem_singleton]
        refine or_congr_right ⟨fun he => ⟨he.symm, ?_⟩, fun he => he.1.symm⟩
        rw [he]
        exact hsome
    have hsame : (m.addCommandBuffer a.objectId a.addedTime a.contents.buffer).alive = m.alive ∧
        (m.addCommandBuffer a.objectId a.addedTime a.contents.buffer).flush = m.flush ∧
        (m.addCommandBuffer a.objectId a.addedTime a.contents.buffer).flushingInProgress =
          m.flushingInProgress ∧
        (m.addCommandBuffer a.objectId a.addedTime a.contents.buffer).bufferInProgress =
          m.bufferInProgress := by
      rw [addCommandBuffer]
      split <;> exact ⟨rfl, rfl, rfl, rfl⟩
    refine ⟨hcounted, fun e => (hqueue e).trans ?_, halive.trans hsame.1, hflush.trans hsame.2.1,
      hflushing.trans hsame.2.2.1, hprogress.trans hsame.2.2.2⟩
    rw [hone e, or_assoc]
    simp only [List.mem_cons, exists_eq_or_imp]

theorem exists_forced (added : List (Added κ H G)) :
    ∃ now : Time, ∀ a ∈ added, now - a.addedTime > forceTime := by
  induction added with
  | nil => exact ⟨0, fun a ha => absurd ha List.not_mem_nil⟩
  | cons a added ih =>
    obtain ⟨now, hnow⟩ := ih
    refine ⟨max now (a.addedTime + forceTime + 1), fun a' ha' => ?_⟩
    have hnow' : now ≤ max now (a.addedTime + forceTime + 1) := Int.le_max_left _ _
    have hadded : a.addedTime + forceTime + 1 ≤ max now (a.addedTime + forceTime + 1) :=
      Int.le_max_right _ _
    rcases List.mem_cons.mp ha' with rfl | ha'
    · exact Int.lt_sub_left_of_add_lt (Int.lt_of_add_one_le hadded)
    · exact Int.lt_of_lt_of_le (hnow a' ha') (Int.sub_le_sub_right hnow' a'.addedTime)

structure Started (H : CommandHeader) (G : GodotTypes) (alive : ObjectID → Bool)
    (objectOverride : Bool) (added : List (Added κ H G)) (m : State κ) : Prop where
  counted : Counted H G m 0
  alive : m.alive = alive
  bufferInProgress : m.bufferInProgress = false
  flush : ∃ f, m.flush = some f ∧ f.objectOverride = objectOverride ∧ f.place = .buffers
  queue : ∀ e, e ∈ m.commandBuffers ↔ ∃ a ∈ added, a.entry = e ∧ e.buffer.numCommands ≠ 0

theorem started_addAll (alive : ObjectID → Bool) (objectOverride : Bool)
    (maxFlushTime now : Time) (added : List (Added κ H G)) :
    ∃ m, (({ alive := alive } : State κ).addAll added).flushState objectOverride maxFlushTime now =
        some m ∧ Started H G alive objectOverride added m := by
  obtain ⟨hcounted, hqueue, halive, hflush, hflushing, hprogress⟩ :=
    addAll_spec added (counted_init (H := H) (G := G) alive)
  obtain ⟨m, hm⟩ : ∃ m, (({ alive := alive } : State κ).addAll added).flushState objectOverride
      maxFlushTime now = some m := by
    rw [flushState, hflushing, hflush]
    exact ⟨_, rfl⟩
  have hstarted := hcounted.flushState hm
  refine ⟨m, hm, hstarted, ?_, ?_, ?_, fun e => ?_⟩ <;>
    rw [flushState, hflushing, hflush] at hm <;> cases hm
  · exact halive
  · exact hprogress
  · exact ⟨_, rfl, rfl, rfl⟩
  · exact (hqueue e).trans (or_iff_right List.not_mem_nil)

variable {alive : ObjectID → Bool} {objectOverride : Bool} {added : List (Added κ H G)}

theorem Started.served (h : Started H G alive objectOverride added m)
    (hall : ∀ a ∈ added, (objectOverride || alive a.objectId) = true → a.contents.Finishes) :
    Served H G objectOverride m := by
  obtain ⟨f, hflush, hoverride, hplace⟩ := h.flush
  refine ⟨fun f' hf' => ?_, fun e he hobject => ?_, fun hc => ?_, fun f' hf' _ hc => ?_⟩
  · cases hflush.symm.trans hf'
    exact hoverride
  · obtain ⟨a, ha, rfl, -⟩ := (h.queue e).mp he
    rw [HasObject, h.alive] at hobject
    exact (hall a ha hobject).finishing
  · rw [h.bufferInProgress] at hc
    cases hc
  · cases hflush.symm.trans hf'
    rw [hplace] at hc
    cases hc

theorem Started.runs (h : Started H G alive objectOverride added m)
    (hall : ∀ a ∈ added, Unstopped H G a.contents.buffer) : Runs H G m := by
  obtain ⟨f, hflush, -, hplace⟩ := h.flush
  refine ⟨fun e he => ?_, fun hc => ?_, fun f' hf' _ hc => ?_⟩
  · obtain ⟨a, ha, rfl, -⟩ := (h.queue e).mp he
    exact hall a ha
  · rw [h.bufferInProgress] at hc
    cases hc
  · cases hflush.symm.trans hf'
    rw [hplace] at hc
    cases hc

theorem Started.loops (h : Started H G alive objectOverride added m) {now : Time}
    (hforced : ∀ a ∈ added, now - a.addedTime > forceTime) {a : Added κ H G} (ha : a ∈ added)
    (hobject : (objectOverride || alive a.objectId) = true) (hnot : ¬ a.contents.Finishes) :
    Loops H G objectOverride now m := by
  obtain ⟨f, hflush, hoverride, hplace⟩ := h.flush
  have hdoomed := Contents.doomed hnot
  refine ⟨⟨f, hflush, hoverride, by rw [hplace]; trivial⟩, fun e he => ?_, fun hc => ?_,
    Or.inl ⟨a.entry, ?_, ?_, hdoomed⟩⟩
  · obtain ⟨a', ha', rfl, -⟩ := (h.queue e).mp he
    exact hforced a' ha'
  · rw [h.bufferInProgress] at hc
    cases hc
  · exact (h.queue a.entry).mpr ⟨a, ha, rfl, Nat.ne_of_gt hdoomed.numCommands_pos⟩
  · rw [HasObject, h.alive]
    exact hobject

/-- A flush of a queue ends under every clock if and only if no buffer that it processes has a
Godot command without arguments, or one behind a command with more than 16. -/
theorem flush_ends_iff (H : CommandHeader) (G : GodotTypes) (alive : ObjectID → Bool)
    (objectOverride : Bool) (maxFlushTime now : Time) (added : List (Added κ H G)) :
    ∃ m, (({ alive := alive } : State κ).addAll added).flushState objectOverride maxFlushTime now =
        some m ∧
      (FlushEnds H G m ↔ ∀ a ∈ added, (objectOverride || alive a.objectId) = true →
        a.contents.Finishes) := by
  obtain ⟨m, hm, hstarted⟩ := started_addAll alive objectOverride maxFlushTime now added
  refine ⟨m, hm, fun hends a ha hobject => ?_, fun hall => ?_⟩
  · by_contra hnot
    obtain ⟨forced, hforced⟩ := exists_forced added
    exact (hstarted.loops hforced ha hobject hnot).not_flushEnds hstarted.counted hends
  · exact (hstarted.served hall).flushEnds hstarted.counted

/-- A command with 17 arguments and one behind it, for the object 1. -/
def addSeventeen : Added Nat GodotCommandBuffer.byteHeader GodotCommandBuffer.byteTypes :=
  ⟨1, 0, .godot [.addCommandVararg (1 : UInt8) (List.replicate 17 .nil) (by decide),
    .addCommandVararg (2 : UInt8) [.nil] (by decide)]⟩

/-- The flush 6 s later goes on for ever. -/
theorem seventeen_never_ends : ∃ m,
    (({ alive := fun _ => true } : State Nat).addAll [addSeventeen]).flushState false 100000000
      6000000000 = some m ∧
    ¬ FlushEnds GodotCommandBuffer.byteHeader GodotCommandBuffer.byteTypes m ∧
    ∃ r : (serverMachine GodotCommandBuffer.byteHeader GodotCommandBuffer.byteTypes m.alive).Endless,
      r.state 0 = m ∧ ∀ n, r.label n = .flush 6000000000 := by
  obtain ⟨m, hm, hstarted⟩ :=
    started_addAll (fun _ => true) false 100000000 6000000000 [addSeventeen]
  have hnot : ¬ addSeventeen.contents.Finishes := by
    intro h
    have hfirst : 17 ≤ 16 := h.2 _ List.mem_cons_self
    omega
  have hforced : ∀ a ∈ [addSeventeen], 6000000000 - a.addedTime > forceTime := by
    intro a ha
    cases List.mem_singleton.mp ha
    decide
  have hloops := hstarted.loops hforced List.mem_cons_self rfl hnot
  refine ⟨m, hm, hloops.not_flushEnds hstarted.counted,
    hloops.endless_of_runs hstarted.counted (hstarted.runs ?_)⟩
  intro a ha
  cases List.mem_singleton.mp ha
  refine Or.inr ⟨_, 0, GodotCommandBuffer.filled_processed _, fun a ha => ?_⟩
  rcases List.mem_cons.mp ha with rfl | ha
  · decide
  · cases List.mem_singleton.mp ha
    decide

end State
end CosmicArchitect.CommandServer
