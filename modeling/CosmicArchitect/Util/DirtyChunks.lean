import CosmicArchitect.Util.DirtyRanges

/-!
# Tracking whole dirty chunks (Util/DirtyTracker.h, DirtyTracker.cpp)

`DirtyChunkTracker` keeps the set of the chunks that were marked, as 16-bit indices, and
reports runs of consecutive chunks. Its calls are those of the range tracker.
-/

namespace CosmicArchitect.Util.DirtyChunkTracker

open DirtyRangeTracker (Call chunkIndex Covers Added covers_append covers_singleton)

/-- `std::set<uint16_t>`. -/
abbrev Chunks := Std.TreeSet Nat

def addItem (chunkSize : Nat) (chunks : Chunks) (pos : Nat) : Chunks :=
  chunks.insert (chunkIndex chunkSize pos)

/-- The loop of `AddItems`; `turns` bounds its turns, a 16-bit index allows 65535. The index
it stops at comes first. -/
def addChunks (lastChunkIndex : Nat) : Nat → Nat → Chunks → Nat × Chunks
  | 0, chunkIndex, chunks => (chunkIndex, chunks)
  | turns + 1, chunkIndex, chunks =>
    if chunkIndex ≠ lastChunkIndex then
      addChunks lastChunkIndex turns ((chunkIndex + 1) % 65536) (chunks.insert chunkIndex)
    else (chunkIndex, chunks)

def addItems (chunkSize : Nat) (chunks : Chunks) (first last : Nat) : Chunks :=
  let firstChunkIndex := chunkIndex chunkSize first
  let lastChunkIndex := chunkIndex chunkSize last
  (addChunks lastChunkIndex 65535 firstChunkIndex chunks).2

/-- The variables of `ForEachRange` and the ranges handed to the callback so far. -/
structure Ranges where
  reported : List (Nat × Nat) := []
  multichunkRangeBegin : Nat := 65535
  multichunkRangeEnd : Nat := 65535
  lastChunkIndex : Nat := 65534
deriving DecidableEq, Repr

/-- One turn of the loop of `ForEachRange`. -/
def Ranges.next (r : Ranges) (chunkIndex : Nat) : Ranges :=
  if r.lastChunkIndex + 1 = chunkIndex then
    { r with multichunkRangeEnd := chunkIndex, lastChunkIndex := chunkIndex }
  else
    { reported :=
        if r.multichunkRangeBegin ≠ 65535 then
          r.reported ++ [(r.multichunkRangeBegin, r.multichunkRangeEnd)]
        else r.reported
      multichunkRangeBegin := chunkIndex
      multichunkRangeEnd := chunkIndex
      lastChunkIndex := chunkIndex }

/-- The range still open behind the loop. -/
def Ranges.finish (r : Ranges) : List (Nat × Nat) :=
  if r.multichunkRangeBegin ≠ 65535 then
    r.reported ++ [(r.multichunkRangeBegin, r.multichunkRangeEnd)]
  else r.reported

/-- The ranges of chunks `ForEachRange` hands to its callback, in order. -/
def forEachRange (chunks : Chunks) : List (Nat × Nat) :=
  (chunks.toList.foldl Ranges.next {}).finish

def call (chunkSize : Nat) (chunks : Chunks) : Call → Chunks
  | .addItem pos => addItem chunkSize chunks pos
  | .addItems first last => addItems chunkSize chunks first last

def calls (chunkSize : Nat) (cs : List Call) : Chunks := cs.foldl (call chunkSize) {}

/-! ### The chunks the calls mark -/

/-- The positions lie within 65535 chunks. -/
structure InRange (chunkSize : Nat) (c : Call) : Prop where
  ordered : c.lower ≤ c.upper
  chunk : c.upper / chunkSize < 65535

/-- The call puts chunk `k` into the set: `AddItems` stops in front of its last chunk. -/
def Marks (chunkSize k : Nat) : Call → Prop
  | .addItem pos => pos / chunkSize = k
  | .addItems first last => first / chunkSize ≤ k ∧ k < last / chunkSize

variable {chunkSize : Nat}

theorem InRange.chunkIndex_upper {c : Call} (h : InRange chunkSize c) :
    chunkIndex chunkSize c.upper = c.upper / chunkSize :=
  Nat.mod_eq_of_lt (Nat.lt_succ_of_lt h.chunk)

theorem InRange.chunkIndex_lower {c : Call} (h : InRange chunkSize c) :
    chunkIndex chunkSize c.lower = c.lower / chunkSize := by
  have hle : c.lower / chunkSize ≤ c.upper / chunkSize := Nat.div_le_div_right h.ordered
  exact Nat.mod_eq_of_lt (Nat.lt_succ_of_lt (lt_of_le_of_lt hle h.chunk))

/-- The loop stops at the last chunk and puts those in front of it into the set. -/
theorem addChunks_spec {last : Nat} (hlast : last < 65536) :
    ∀ (turns i : Nat) (chunks : Chunks), i ≤ last → last ≤ i + turns →
      (addChunks last turns i chunks).1 = last ∧
      ∀ k, k ∈ (addChunks last turns i chunks).2 ↔ (i ≤ k ∧ k < last) ∨ k ∈ chunks := by
  intro turns
  induction turns with
  | zero =>
    intro i chunks hi hturns
    refine ⟨Nat.le_antisymm hi hturns, fun k => ⟨Or.inr, ?_⟩⟩
    rintro (hk | hk)
    · omega
    · exact hk
  | succ turns ih =>
    intro i chunks hi hturns
    by_cases hne : i = last
    · simp only [addChunks, if_neg (not_not.mpr hne)]
      refine ⟨hne, fun k => ⟨Or.inr, ?_⟩⟩
      rintro (hk | hk)
      · omega
      · exact hk
    · have hmod : (i + 1) % 65536 = i + 1 := Nat.mod_eq_of_lt (by omega)
      obtain ⟨hindex, hmem⟩ := ih (i + 1) (chunks.insert i) (by omega) (by omega)
      simp only [addChunks, if_pos hne, hmod]
      refine ⟨hindex, fun k => ?_⟩
      rw [hmem, Std.TreeSet.mem_insert, compare_eq_iff_eq, ← or_assoc]
      refine or_congr_left ?_
      omega

theorem mem_call {c : Call} (h : InRange chunkSize c) (chunks : Chunks) (k : Nat) :
    k ∈ call chunkSize chunks c ↔ k ∈ chunks ∨ Marks chunkSize k c := by
  have hupper := h.chunkIndex_upper
  have hlower := h.chunkIndex_lower
  cases c with
  | addItem pos =>
    simp only [Call.upper] at hupper
    rw [call, addItem, hupper, Std.TreeSet.mem_insert, compare_eq_iff_eq, or_comm]
    rfl
  | addItems first last =>
    have hle : first / chunkSize ≤ last / chunkSize := Nat.div_le_div_right h.ordered
    have hlt : last / chunkSize < 65535 := h.chunk
    simp only [Call.lower, Call.upper] at hupper hlower
    have hspec := addChunks_spec (Nat.lt_succ_of_lt hlt) 65535 _ chunks hle (by omega)
    rw [call, addItems, hlower, hupper, hspec.2, or_comm]
    rfl

theorem mem_calls (cl : List Call) (hcl : ∀ c ∈ cl, InRange chunkSize c) (k : Nat) :
    k ∈ calls chunkSize cl ↔ ∃ c ∈ cl, Marks chunkSize k c := by
  induction cl using List.reverseRecOn with
  | nil => simp [calls]
  | append_singleton cl c ih =>
    have hold := ih fun d hd => hcl d (List.mem_append_left _ hd)
    have hc := hcl c (List.mem_append_right _ (List.mem_singleton_self c))
    rw [calls] at hold
    rw [calls, List.foldl_append, List.foldl_cons, List.foldl_nil, mem_call hc, hold]
    simp only [List.mem_append, List.mem_singleton, or_and_right, exists_or, exists_eq_left]

theorem Marks.lt {c : Call} (h : InRange chunkSize c) {k : Nat} (hk : Marks chunkSize k c) :
    k < 65535 := by
  have hchunk := h.chunk
  cases c with
  | addItem pos =>
    rw [← hk]
    exact hchunk
  | addItems first last => exact lt_trans hk.2 hchunk

/-! ### The ranges reported -/

/-- What holds of the loop of `ForEachRange` between two turns: an open range ends at the
chunk seen last, and none is open only in front of the first chunk. -/
structure Ranges.Between (r : Ranges) : Prop where
  opened : r.multichunkRangeBegin ≠ 65535 →
    r.multichunkRangeBegin ≤ r.lastChunkIndex ∧ r.multichunkRangeEnd = r.lastChunkIndex
  closed : r.multichunkRangeBegin = 65535 → r.lastChunkIndex = 65534

theorem Ranges.lastChunkIndex_next (r : Ranges) (i : Nat) : (r.next i).lastChunkIndex = i := by
  unfold Ranges.next
  split <;> rfl

/-- A chunk right behind the last one extends the range that is open. -/
theorem Ranges.Between.finish_join {r : Ranges} (h : r.Between) {i : Nat}
    (hopen : r.multichunkRangeBegin ≠ 65535) (hjoin : r.lastChunkIndex + 1 = i) :
    r.finish = r.reported ++ [(r.multichunkRangeBegin, r.lastChunkIndex)] ∧
    (r.next i).finish = r.reported ++ [(r.multichunkRangeBegin, i)] := by
  constructor
  · rw [Ranges.finish, if_pos hopen, (h.opened hopen).2]
  · simp only [Ranges.next, if_pos hjoin, Ranges.finish, if_pos hopen]

/-- A chunk behind a gap hands over the range that was open. -/
theorem Ranges.reported_gap {r : Ranges} {i : Nat} (hgap : r.lastChunkIndex + 1 ≠ i) :
    (r.next i).reported = r.finish ∧ (r.next i).multichunkRangeBegin = i ∧
    (r.next i).multichunkRangeEnd = i := by
  simp only [Ranges.next, if_neg hgap, Ranges.finish, and_self]

theorem Ranges.finish_gap {r : Ranges} {i : Nat} (hgap : r.lastChunkIndex + 1 ≠ i)
    (hi : i ≠ 65535) : (r.next i).finish = r.finish ++ [(i, i)] := by
  obtain ⟨hreported, hbegin, hend⟩ := Ranges.reported_gap hgap
  rw [Ranges.finish, hbegin, if_pos hi, hreported, hend]

theorem Ranges.Between.opened_of_join {r : Ranges} (h : r.Between) {i : Nat} (hi : i < 65535)
    (hjoin : r.lastChunkIndex + 1 = i) : r.multichunkRangeBegin ≠ 65535 := by
  intro hclosed
  have hlast := h.closed hclosed
  omega

theorem Ranges.Between.covers_join {r : Ranges} (h : r.Between) {i : Nat}
    (hopen : r.multichunkRangeBegin ≠ 65535) (hjoin : r.lastChunkIndex + 1 = i) (q : Nat) :
    Covers (r.next i).finish q ↔ Covers r.finish q ∨ q = i := by
  obtain ⟨hold, hnew⟩ := h.finish_join hopen hjoin
  obtain ⟨hle, _⟩ := h.opened hopen
  rw [hnew, hold, covers_append, covers_append, covers_singleton, covers_singleton, or_assoc]
  apply or_congr_right
  simp only []
  omega

/-- A turn adds its chunk to the ranges. -/
theorem Ranges.Between.next {r : Ranges} (h : r.Between) {i : Nat} (hi : i < 65535) :
    (r.next i).Between ∧ ∀ q, Covers (r.next i).finish q ↔ Covers r.finish q ∨ q = i := by
  by_cases hjoin : r.lastChunkIndex + 1 = i
  · have hopen := h.opened_of_join hi hjoin
    have hle := (h.opened hopen).1
    have hnext : r.next i = { r with multichunkRangeEnd := i, lastChunkIndex := i } :=
      if_pos hjoin
    refine ⟨?_, h.covers_join hopen hjoin⟩
    rw [hnext]
    refine ⟨fun _ => ⟨?_, rfl⟩, fun hclosed => absurd hclosed hopen⟩
    show r.multichunkRangeBegin ≤ i
    omega
  · obtain ⟨_, hbegin, hend⟩ := Ranges.reported_gap hjoin
    have hlast := r.lastChunkIndex_next i
    refine ⟨⟨fun _ => ⟨by omega, by omega⟩, fun hclosed => by omega⟩, fun q => ?_⟩
    rw [Ranges.finish_gap hjoin (by omega), covers_append, covers_singleton]
    apply or_congr_right
    simp only []
    omega

theorem Ranges.Between.foldl (l : List Nat) (hl : ∀ i ∈ l, i < 65535) :
    ∀ r : Ranges, r.Between →
      ∀ q, Covers (l.foldl Ranges.next r).finish q ↔ Covers r.finish q ∨ q ∈ l := by
  induction l with
  | nil => exact fun r _ q => by simp
  | cons i l ih =>
    intro r h q
    obtain ⟨hnext, hcovers⟩ := h.next (hl i List.mem_cons_self)
    rw [List.foldl_cons, ih (fun j hj => hl j (List.mem_cons_of_mem _ hj)) _ hnext, hcovers,
      List.mem_cons, or_assoc]

/-- The ranges reported for a set of chunks are the set. -/
theorem covers_forEachRange {chunks : Chunks} (h : ∀ k ∈ chunks, k < 65535) (q : Nat) :
    Covers (forEachRange chunks) q ↔ q ∈ chunks := by
  have hstart : Ranges.Between {} := ⟨fun hne => absurd rfl hne, fun _ => rfl⟩
  have hlist : ∀ i ∈ chunks.toList, i < 65535 := fun i hi =>
    h i (Std.TreeSet.mem_toList.mp hi)
  rw [forEachRange, Ranges.Between.foldl _ hlist {} hstart, Std.TreeSet.mem_toList]
  simp [Ranges.finish, Covers]

/-! ### The calls and the ranges -/

/-- The reported ranges are the chunks of the items added. -/
def ReportsChunks (chunkSize : Nat) (cl : List Call) : Prop :=
  ∀ q, Covers (forEachRange (calls chunkSize cl)) q ↔ ∃ p, Added cl p ∧ p / chunkSize = q

/-- The last chunk of each range added is marked, by a call of its own or by a range that
goes on behind it. -/
def LastMarked (chunkSize : Nat) (cl : List Call) : Prop :=
  ∀ first last, Call.addItems first last ∈ cl → ∃ c ∈ cl, Marks chunkSize (last / chunkSize) c

theorem touches_iff (hsize : 1 ≤ chunkSize) {c : Call} (hle : c.lower ≤ c.upper) (k : Nat) :
    c.Touches chunkSize k ↔ ∃ p, (c.lower ≤ p ∧ p ≤ c.upper) ∧ p / chunkSize = k := by
  constructor
  · rintro ⟨hfirst, hlast⟩
    by_cases hk : k = c.lower / chunkSize
    · exact ⟨c.lower, ⟨le_refl _, hle⟩, hk.symm⟩
    · have hlt : c.lower / chunkSize < k := lt_of_le_of_ne hfirst (Ne.symm hk)
      refine ⟨k * chunkSize, ⟨?_, ?_⟩, Nat.mul_div_cancel _ hsize⟩
      · exact Nat.le_of_lt ((Nat.div_lt_iff_lt_mul hsize).mp hlt)
      · exact (Nat.le_div_iff_mul_le hsize).mp hlast
  · rintro ⟨p, ⟨hlow, hup⟩, rfl⟩
    exact ⟨Nat.div_le_div_right hlow, Nat.div_le_div_right hup⟩

/-- A call marks the chunks it adds items to, the last chunk of a range apart. -/
theorem marks_iff {c : Call} (h : InRange chunkSize c) (k : Nat) :
    (Marks chunkSize k c → c.Touches chunkSize k) ∧
    (c.Touches chunkSize k → Marks chunkSize k c ∨
      ∃ first last, c = .addItems first last ∧ k = last / chunkSize) := by
  cases c with
  | addItem pos =>
    exact ⟨fun hk => ⟨Nat.le_of_eq hk, Nat.le_of_eq hk.symm⟩,
      fun hk => Or.inl (Nat.le_antisymm hk.1 hk.2)⟩
  | addItems first last =>
    refine ⟨fun hk => ⟨hk.1, Nat.le_of_lt hk.2⟩, fun hk => ?_⟩
    rcases Nat.eq_or_lt_of_le hk.2 with heq | hlt
    · exact Or.inr ⟨first, last, rfl, heq⟩
    · exact Or.inl ⟨hk.1, hlt⟩

/-- Every dirty chunk is reported, and no other, exactly when the last chunk of each added
range is marked by some call. -/
theorem reports_iff_lastMarked (hsize : 1 ≤ chunkSize) (cl : List Call)
    (hcl : ∀ c ∈ cl, InRange chunkSize c) :
    ReportsChunks chunkSize cl ↔ LastMarked chunkSize cl := by
  have hdirty : ∀ q, (∃ p, Added cl p ∧ p / chunkSize = q) ↔ ∃ c ∈ cl, c.Touches chunkSize q := by
    intro q
    constructor
    · rintro ⟨p, ⟨c, hc, hp⟩, hq⟩
      exact ⟨c, hc, (touches_iff hsize (hcl c hc).ordered q).mpr ⟨p, hp, hq⟩⟩
    · rintro ⟨c, hc, htouch⟩
      obtain ⟨p, hp, hq⟩ := (touches_iff hsize (hcl c hc).ordered q).mp htouch
      exact ⟨p, ⟨c, hc, hp⟩, hq⟩
  have hreported : ∀ q, Covers (forEachRange (calls chunkSize cl)) q ↔
      ∃ c ∈ cl, Marks chunkSize q c := by
    intro q
    rw [covers_forEachRange, mem_calls cl hcl]
    intro k hk
    obtain ⟨c, hc, hmarks⟩ := (mem_calls cl hcl k).mp hk
    exact hmarks.lt (hcl c hc)
  simp only [ReportsChunks, hdirty, hreported]
  constructor
  · intro h first last hmem
    have hle : first / chunkSize ≤ last / chunkSize :=
      Nat.div_le_div_right (hcl _ hmem).ordered
    exact (h _).mpr ⟨_, hmem, hle, le_refl _⟩
  · intro h q
    constructor
    · rintro ⟨c, hc, hmarks⟩
      exact ⟨c, hc, (marks_iff (hcl c hc) q).1 hmarks⟩
    · rintro ⟨c, hc, htouch⟩
      rcases (marks_iff (hcl c hc) q).2 htouch with hmarks | ⟨first, last, rfl, rfl⟩
      · exact ⟨c, hc, hmarks⟩
      · exact h first last hc

/-- A range over three chunks of sixteen whose last chunk is marked by an item of its own. -/
theorem reports_iff_lastMarked_item :
    let cl : List Call := [.addItems 3 40, .addItem 35]
    ReportsChunks 16 cl ↔ LastMarked 16 cl :=
  reports_iff_lastMarked (by decide) _ (by
    intro c hc
    rcases List.mem_cons.mp hc with rfl | hc
    · exact ⟨by decide, by decide⟩
    · rw [List.mem_singleton.mp hc]
      exact ⟨by decide, by decide⟩)

/-- A range inside one chunk is not reported at all. -/
theorem addItems_unreported :
    InRange 16 (.addItems 0 5) ∧ forEachRange (calls 16 [.addItems 0 5]) = [] ∧
    ¬ReportsChunks 16 [.addItems 0 5] := by
  have hranges : forEachRange (calls 16 [.addItems 0 5]) = [] := by decide +kernel
  refine ⟨⟨by decide, by decide⟩, hranges, fun h => ?_⟩
  have hcovers := (h 0).mpr ⟨0, ⟨_, List.mem_singleton_self _, by decide⟩, by decide⟩
  rw [hranges] at hcovers
  obtain ⟨r, hr, _⟩ := hcovers
  exact absurd hr List.not_mem_nil

end CosmicArchitect.Util.DirtyChunkTracker
