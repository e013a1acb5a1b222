import CosmicArchitect.Library.MaximalRuns
import CosmicArchitect.Util.DirtyTracker

/-!
# The ranges a dirty tracker reports

`ForEachRange` joins the kept ranges in order. What it reports spans the added positions of
each chunk exactly when the ranges kept do.
-/

namespace CosmicArchitect.Util.DirtyRangeTracker
open Library

variable {chunkSize : Nat}

/-! ### The ranges reported -/

def Covers (ranges : List (Nat × Nat)) (q : Nat) : Prop := ∃ r ∈ ranges, r.1 ≤ q ∧ q ≤ r.2

/-- Ranges that begin no later than they end, each behind the one before. -/
structure Increasing (ranges : List (Nat × Nat)) : Prop where
  le : ∀ r ∈ ranges, r.1 ≤ r.2
  before : ranges.Pairwise fun r r' => r.2 < r'.1

theorem covers_append {l l' : List (Nat × Nat)} {q : Nat} :
    Covers (l ++ l') q ↔ Covers l q ∨ Covers l' q := by
  simp only [Covers, List.mem_append, or_and_right, exists_or]

theorem covers_singleton {r : Nat × Nat} {q : Nat} : Covers [r] q ↔ r.1 ≤ q ∧ q ≤ r.2 := by
  simp only [Covers, List.mem_singleton, exists_eq_left]

theorem increasing_iff {l : List (Nat × Nat)} : Increasing l ↔ Spaced 0 l :=
  ⟨fun h => ⟨h.le, h.before⟩, fun h => ⟨h.le, h.apart⟩⟩

theorem Increasing.append {l : List (Nat × Nat)} (h : Increasing l) {r : Nat × Nat}
    (hr : r.1 ≤ r.2) (hl : ∀ x ∈ l, x.2 < r.1) : Increasing (l ++ [r]) :=
  increasing_iff.mpr ((increasing_iff.mp h).append hr hl)

theorem Increasing.extend {l : List (Nat × Nat)} {b e e' : Nat} (h : Increasing (l ++ [(b, e)]))
    (he : e ≤ e') : Increasing (l ++ [(b, e')]) :=
  increasing_iff.mpr ((increasing_iff.mp h).extend he)

/-- The range a chunk stands for. -/
def interval (chunkSize : Nat) (entry : Nat × Chunk) : Nat × Nat :=
  (entry.1 * chunkSize + entry.2.first, entry.1 * chunkSize + entry.2.last)

/-- What holds of the loop of `ForEachRange` in front of the chunks from `k` on: no range
reported reaches `k`, and unless a range is open the last one ends in front of it. -/
structure Ranges.Before (chunkSize : Nat) (r : Ranges) (k : Nat) : Prop where
  increasing : Increasing r.finish
  ends : ∀ x ∈ r.finish, x.2 < k * chunkSize
  opened : r.multichunkRangeBegin ≠ 4294967295 → r.multichunkRangeEnd = r.previousChunkEnd
  closed : r.multichunkRangeBegin = 4294967295 →
    r.previousChunkEnd + 1 < k * chunkSize ∨ r.previousChunkEnd + 1 = 4294967295

/-- A chunk whose values fit in it and whose index has 16 bits. -/
structure Entry (chunkSize : Nat) (entry : Nat × Chunk) : Prop where
  index : entry.1 < 65536
  first : entry.2.first < chunkSize
  last : entry.2.last < chunkSize

theorem Entry.interval_lt {entry : Nat × Chunk} (h : Entry chunkSize entry)
    (hmax : chunkSize ≤ 65535) :
    (interval chunkSize entry).1 < 4294967294 ∧ (interval chunkSize entry).2 < 4294967294 := by
  have hbegin : entry.1 * chunkSize ≤ 65535 * 65535 :=
    Nat.mul_le_mul (Nat.le_of_lt_succ h.index) hmax
  have hfirst := h.first
  have hlast := h.last
  unfold interval
  omega

/-- The range of a chunk lies in the chunk. -/
theorem Entry.interval_within {entry : Nat × Chunk} (h : Entry chunkSize entry)
    (hle : entry.2.first ≤ entry.2.last) :
    entry.1 * chunkSize ≤ (interval chunkSize entry).1 ∧
    (interval chunkSize entry).1 ≤ (interval chunkSize entry).2 ∧
    (interval chunkSize entry).2 < (entry.1 + 1) * chunkSize := by
  have hlast := h.last
  rw [Nat.succ_mul]
  unfold interval
  omega

theorem Ranges.finish_of_opened {r : Ranges} (h : r.multichunkRangeBegin ≠ 4294967295) :
    r.finish = r.reported ++ [(r.multichunkRangeBegin, r.multichunkRangeEnd)] := if_pos h

theorem Ranges.finish_of_closed {r : Ranges} (h : r.multichunkRangeBegin = 4294967295) :
    r.finish = r.reported := if_neg fun hne => hne h

/-- One turn either extends the open range up to the chunk's end or adds the chunk's range. -/
theorem Ranges.finish_next {r : Ranges} {entry : Nat × Chunk} {k : Nat}
    (h : r.Before chunkSize k) (hk : k ≤ entry.1) (hentry : Entry chunkSize entry)
    (hmax : chunkSize ≤ 65535) :
    (∃ l b, r.finish = l ++ [(b, r.previousChunkEnd)] ∧
      r.previousChunkEnd + 1 = (interval chunkSize entry).1 ∧
      (r.next chunkSize entry).finish = l ++ [(b, (interval chunkSize entry).2)]) ∨
    (r.previousChunkEnd + 1 ≠ (interval chunkSize entry).1 ∧
      (r.next chunkSize entry).finish = r.finish ++ [interval chunkSize entry]) := by
  have hlt := hentry.interval_lt hmax
  have hmul : k * chunkSize ≤ entry.1 * chunkSize := Nat.mul_le_mul_right _ hk
  unfold interval at hlt ⊢
  by_cases hjoin : r.previousChunkEnd + 1 = entry.1 * chunkSize + entry.2.first
  · have hopen : r.multichunkRangeBegin ≠ 4294967295 := by
      intro hclosed
      have := h.closed hclosed
      omega
    refine Or.inl ⟨r.reported, r.multichunkRangeBegin, ?_, hjoin, ?_⟩
    · rw [Ranges.finish_of_opened hopen, h.opened hopen]
    · simp only [Ranges.next, if_pos hjoin]
      split
      · exact Ranges.finish_of_opened hopen
      · exact Ranges.finish_of_closed rfl
  · refine Or.inr ⟨hjoin, ?_⟩
    have hne : entry.1 * chunkSize + entry.2.first ≠ 4294967295 := by omega
    simp only [Ranges.next, if_neg hjoin]
    by_cases hopen : r.multichunkRangeBegin ≠ 4294967295
    · rw [Ranges.finish_of_opened hopen, if_pos hopen]
      split
      · exact Ranges.finish_of_opened hne
      · exact Ranges.finish_of_closed rfl
    · have hclosed : r.multichunkRangeBegin = 4294967295 := not_not.mp hopen
      rw [Ranges.finish_of_closed hclosed, if_neg hopen]
      split
      · exact Ranges.finish_of_opened hne
      · exact Ranges.finish_of_closed hclosed

theorem Ranges.next_previousChunkEnd (r : Ranges) (entry : Nat × Chunk) :
    (r.next chunkSize entry).previousChunkEnd = (interval chunkSize entry).2 := by
  simp only [Ranges.next, interval]
  split <;> split <;> rfl

/-- A range is open behind a chunk exactly when the chunk is dirty up to its end. -/
theorem Ranges.next_open {r : Ranges} {entry : Nat × Chunk} {k : Nat}
    (h : r.Before chunkSize k) (hk : k ≤ entry.1) (hentry : Entry chunkSize entry)
    (hmax : chunkSize ≤ 65535) :
    if entry.2.last = chunkSize - 1 then
      (r.next chunkSize entry).multichunkRangeBegin ≠ 4294967295 ∧
      (r.next chunkSize entry).multichunkRangeEnd = (interval chunkSize entry).2
    else (r.next chunkSize entry).multichunkRangeBegin = 4294967295 := by
  have hlt := hentry.interval_lt hmax
  have hmul : k * chunkSize ≤ entry.1 * chunkSize := Nat.mul_le_mul_right _ hk
  unfold interval at hlt ⊢
  by_cases hjoin : r.previousChunkEnd + 1 = entry.1 * chunkSize + entry.2.first
  · have hopen : r.multichunkRangeBegin ≠ 4294967295 := by
      intro hclosed
      have := h.closed hclosed
      omega
    simp only [Ranges.next, if_pos hjoin]
    by_cases htouch : entry.2.last = chunkSize - 1
    · simp only [if_pos htouch]
      exact ⟨hopen, trivial⟩
    · simp only [if_neg htouch]
  · have hne : entry.1 * chunkSize + entry.2.first ≠ 4294967295 := by omega
    simp only [Ranges.next, if_neg hjoin]
    by_cases htouch : entry.2.last = chunkSize - 1
    · simp only [if_pos htouch]
      exact ⟨hne, trivial⟩
    · simp only [if_neg htouch]
      split
      next => rfl
      next hclosed => exact not_not.mp hclosed

theorem Ranges.before_start : Ranges.Before chunkSize {} 0 := by
  refine ⟨⟨?_, List.Pairwise.nil⟩, ?_, fun h => absurd rfl h, fun _ => Or.inr rfl⟩
  · intro r hr
    exact absurd hr List.not_mem_nil
  · intro r hr
    exact absurd hr List.not_mem_nil

theorem toList_sorted (chunks : Chunks) :
    chunks.toList.Pairwise fun e e' => e.1 < e'.1 := by
  have h := Std.TreeMap.ordered_keys_toList (t := chunks)
  simpa only [Nat.compare_eq_lt] using h

theorem Ranges.Before.next {r : Ranges} {entry : Nat × Chunk} {k : Nat}
    (h : r.Before chunkSize k) (hk : k ≤ entry.1) (hentry : Entry chunkSize entry)
    (hmax : chunkSize ≤ 65535) (hle : entry.2.first ≤ entry.2.last) :
    (r.next chunkSize entry).Before chunkSize (entry.1 + 1) ∧
    ∀ q, Covers (r.next chunkSize entry).finish q ↔
      Covers r.finish q ∨
        (interval chunkSize entry).1 ≤ q ∧ q ≤ (interval chunkSize entry).2 := by
  have hmul : k * chunkSize ≤ entry.1 * chunkSize := Nat.mul_le_mul_right _ hk
  have hnext : (entry.1 + 1) * chunkSize = entry.1 * chunkSize + chunkSize := Nat.succ_mul _ _
  have hlast := hentry.last
  obtain ⟨hbegin, hinterval, hend⟩ := hentry.interval_within hle
  have hends : ∀ x ∈ r.finish, x.2 < (interval chunkSize entry).1 := fun x hx => by
    have := h.ends x hx
    omega
  have hopen := Ranges.next_open h hk hentry hmax
  have hprevious : (r.next chunkSize entry).previousChunkEnd = (interval chunkSize entry).2 :=
    r.next_previousChunkEnd entry
  have hopened : (r.next chunkSize entry).multichunkRangeBegin ≠ 4294967295 →
      (r.next chunkSize entry).multichunkRangeEnd =
        (r.next chunkSize entry).previousChunkEnd := by
    intro hne
    rw [hprevious]
    split at hopen
    next => exact hopen.2
    next => exact absurd hopen hne
  have hclosed : (r.next chunkSize entry).multichunkRangeBegin = 4294967295 →
      (r.next chunkSize entry).previousChunkEnd + 1 < (entry.1 + 1) * chunkSize ∨
        (r.next chunkSize entry).previousChunkEnd + 1 = 4294967295 := by
    intro heq
    split at hopen
    next => exact absurd heq hopen.1
    next htouch =>
      rw [hprevious]
      unfold interval
      omega
  rcases Ranges.finish_next h hk hentry hmax with ⟨l, b, hold, hjoin, hnew⟩ | ⟨_, hnew⟩
  · have hincreasing := h.increasing
    rw [hold] at hincreasing
    have hb : b ≤ r.previousChunkEnd := hincreasing.le (b, r.previousChunkEnd)
      (List.mem_append_right _ (List.mem_singleton_self _))
    refine ⟨⟨?_, ?_, hopened, hclosed⟩, fun q => ?_⟩
    · rw [hnew]
      exact hincreasing.extend (by omega)
    · rw [hnew]
      intro x hx
      rcases List.mem_append.mp hx with hx | hx
      · have := hends x (hold ▸ List.mem_append_left _ hx)
        omega
      · rw [List.mem_singleton.mp hx]
        exact hend
    · rw [hnew, hold, covers_append, covers_append, covers_singleton, covers_singleton, or_assoc]
      refine or_congr_right ?_
      simp only []
      omega
  · refine ⟨⟨?_, ?_, hopened, hclosed⟩, fun q => ?_⟩
    · rw [hnew]
      exact h.increasing.append hinterval hends
    · rw [hnew]
      intro x hx
      rcases List.mem_append.mp hx with hx | hx
      · have := hends x hx
        omega
      · rw [List.mem_singleton.mp hx]
        exact hend
    · rw [hnew, covers_append, covers_singleton]

/-- The loop over chunks none of which ends in front of its first position reports
increasing ranges that cover just the chunks' ranges. -/
theorem Ranges.Before.foldl (hmax : chunkSize ≤ 65535) (entries : List (Nat × Chunk)) :
    ∀ (r : Ranges) (k : Nat), r.Before chunkSize k → (∀ e ∈ entries, k ≤ e.1) →
      entries.Pairwise (fun e e' => e.1 < e'.1) → (∀ e ∈ entries, Entry chunkSize e) →
      (∀ e ∈ entries, e.2.first ≤ e.2.last) →
      Increasing (entries.foldl (Ranges.next chunkSize) r).finish ∧
      ∀ q, Covers (entries.foldl (Ranges.next chunkSize) r).finish q ↔
        Covers r.finish q ∨ Covers (entries.map (interval chunkSize)) q := by
  induction entries with
  | nil =>
    intro r k h _ _ _ _
    refine ⟨h.increasing, fun q => ?_⟩
    simp only [List.foldl_nil, List.map_nil, Covers, List.not_mem_nil, false_and, exists_false,
      or_false]
  | cons e entries ih =>
    intro r k h hk hsorted hentry hle
    obtain ⟨hnext, hcovers⟩ := h.next (hk e List.mem_cons_self) (hentry e List.mem_cons_self)
      hmax (hle e List.mem_cons_self)
    obtain ⟨hfirst, hrest⟩ := List.pairwise_cons.mp hsorted
    obtain ⟨hincreasing, hcovered⟩ := ih _ (e.1 + 1) hnext (fun e' he' => hfirst e' he') hrest
      (fun e' he' => hentry e' (List.mem_cons_of_mem _ he'))
      (fun e' he' => hle e' (List.mem_cons_of_mem _ he'))
    refine ⟨hincreasing, fun q => ?_⟩
    rw [List.foldl_cons, hcovered, hcovers, List.map_cons, or_assoc]
    refine or_congr_right ?_
    rw [← List.singleton_append, covers_append, covers_singleton]

/-! ### A chunk that ends in front of its first position -/

theorem Ranges.next_reported (r : Ranges) (entry : Nat × Chunk) {x : Nat × Nat}
    (hx : x ∈ r.reported) : x ∈ (r.next chunkSize entry).reported := by
  simp only [Ranges.next]
  split
  · split
    · exact hx
    · exact List.mem_append_left _ hx
  · have hflush : x ∈ (if r.multichunkRangeBegin ≠ 4294967295 then
        { r with
          reported := r.reported ++ [(r.multichunkRangeBegin, r.multichunkRangeEnd)]
          multichunkRangeBegin := 4294967295 }
      else r).reported := by
      split
      · exact List.mem_append_left _ hx
      · exact hx
    split
    · exact hflush
    · exact List.mem_append_left _ hflush

theorem Ranges.foldl_reported (entries : List (Nat × Chunk)) {x : Nat × Nat} :
    ∀ r : Ranges, x ∈ r.reported →
      x ∈ (entries.foldl (Ranges.next chunkSize) r).finish := by
  induction entries with
  | nil =>
    intro r hx
    rw [List.foldl_nil]
    by_cases hopen : r.multichunkRangeBegin = 4294967295
    · rw [Ranges.finish_of_closed hopen]
      exact hx
    · rw [Ranges.finish_of_opened hopen]
      exact List.mem_append_left _ hx
  | cons e entries ih => exact fun r hx => ih _ (r.next_reported e hx)

/-- Such a chunk starts behind the one before and does not touch the next, so its range is
reported alone. -/
theorem Ranges.foldl_reversed (hmax : chunkSize ≤ 65535) (entries : List (Nat × Chunk)) :
    ∀ (r : Ranges) (k : Nat),
      (r.previousChunkEnd < k * chunkSize ∨ r.previousChunkEnd = 4294967294) →
      (∀ e ∈ entries, k ≤ e.1) → entries.Pairwise (fun e e' => e.1 < e'.1) →
      (∀ e ∈ entries, Entry chunkSize e) →
      ∀ e ∈ entries, e.2.last < e.2.first →
        interval chunkSize e ∈ (entries.foldl (Ranges.next chunkSize) r).finish := by
  induction entries with
  | nil =>
    intro r k _ _ _ _ e he
    exact absurd he List.not_mem_nil
  | cons e' entries ih =>
    intro r k hprevious hk hsorted hentry e he hlt
    obtain ⟨hfirst, hrest⟩ := List.pairwise_cons.mp hsorted
    have hthis := hentry e' List.mem_cons_self
    rcases List.mem_cons.mp he with rfl | he
    · refine Ranges.foldl_reported entries _ ?_
      have hmul : k * chunkSize ≤ e.1 * chunkSize :=
        Nat.mul_le_mul_right _ (hk e List.mem_cons_self)
      have hbound := (hthis.interval_lt hmax).1
      have hfits := hthis.first
      unfold interval at hbound ⊢
      have hjoin : ¬r.previousChunkEnd + 1 = e.1 * chunkSize + e.2.first := by omega
      have htouch : ¬e.2.last = chunkSize - 1 := by omega
      simp only [Ranges.next, if_neg hjoin, if_neg htouch]
      exact List.mem_append_right _ (List.mem_singleton_self _)
    · refine ih _ (e'.1 + 1) (Or.inl ?_) (fun d hd => hfirst d hd) hrest
        (fun d hd => hentry d (List.mem_cons_of_mem _ hd)) e he hlt
      have hlast := hthis.last
      rw [Ranges.next_previousChunkEnd, Nat.succ_mul]
      unfold interval
      omega

/-! ### The calls and the ranges -/

/-- Some call adds position `p`. -/
def Added (cl : List Call) (p : Nat) : Prop := ∃ c ∈ cl, c.lower ≤ p ∧ p ≤ c.upper

/-- Every dirty item is reported: the ranges are increasing, cover each added position, and
cover of each chunk what lies between its smallest and its largest added position. -/
structure ReportsDirty (chunkSize : Nat) (cl : List Call) : Prop where
  increasing : Increasing (forEachRange chunkSize (calls chunkSize cl))
  added : ∀ p, Added cl p → Covers (forEachRange chunkSize (calls chunkSize cl)) p
  exact : ∀ q, Covers (forEachRange chunkSize (calls chunkSize cl)) q ↔
    ∃ a b, Added cl a ∧ Added cl b ∧ a / chunkSize = q / chunkSize ∧
      b / chunkSize = q / chunkSize ∧ a ≤ q ∧ q ≤ b

/-- In every chunk with an added position, some call that marks it begins at the smallest
added position, and the largest added position is the chunk's first or has been recorded. -/
def Kept (chunkSize : Nat) (cl : List Call) : Prop :=
  ∀ k, (∃ c ∈ cl, c.Touches chunkSize k) →
    (∃ c ∈ cl, c.Marks chunkSize k ∧
      ∀ c' ∈ cl, c'.Touches chunkSize k → c.lowerIn chunkSize k ≤ c'.lowerIn chunkSize k) ∧
    ∃ v, (v = 0 ∨ Recorded chunkSize cl k v) ∧
      ∀ c' ∈ cl, c'.Touches chunkSize k → c'.upperIn chunkSize k ≤ v

theorem le_iff_chunk (hsize : 1 ≤ chunkSize) (p q : Nat) : p ≤ q ↔
    p / chunkSize < q / chunkSize ∨
      p / chunkSize = q / chunkSize ∧ p % chunkSize ≤ q % chunkSize := by
  have hp := Nat.div_add_mod p chunkSize
  have hq := Nat.div_add_mod q chunkSize
  have hpm := Nat.mod_lt p hsize
  have hqm := Nat.mod_lt q hsize
  rcases Nat.lt_trichotomy (p / chunkSize) (q / chunkSize) with h | h | h
  · have hmul : chunkSize * (p / chunkSize + 1) ≤ chunkSize * (q / chunkSize) :=
      Nat.mul_le_mul_left _ h
    rw [Nat.mul_add] at hmul
    omega
  · rw [h] at hp ⊢
    omega
  · have hmul : chunkSize * (q / chunkSize + 1) ≤ chunkSize * (p / chunkSize) :=
      Nat.mul_le_mul_left _ h
    rw [Nat.mul_add] at hmul
    omega

theorem Call.adds_iff (hsize : 1 ≤ chunkSize) {c : Call} (p : Nat) :
    (c.lower ≤ p ∧ p ≤ c.upper) ↔ c.Touches chunkSize (p / chunkSize) ∧
      c.lowerIn chunkSize (p / chunkSize) ≤ p % chunkSize ∧
      p % chunkSize ≤ c.upperIn chunkSize (p / chunkSize) := by
  have hmod := Nat.mod_lt p hsize
  rw [le_iff_chunk hsize c.lower, le_iff_chunk hsize p c.upper]
  unfold Call.Touches Call.lowerIn Call.upperIn Call.firstChunk Call.lastChunk
  split <;> split <;> omega

theorem Call.InRange.lowerIn_le_upperIn (hsize : 1 ≤ chunkSize) {c : Call}
    (hc : c.InRange chunkSize) (k : Nat) :
    c.lowerIn chunkSize k ≤ c.upperIn chunkSize k := by
  have hlower := c.lowerIn_lt hsize k
  unfold Call.upperIn
  split
  next hlast =>
    have hordered := (le_iff_chunk hsize c.lower c.upper).mp hc.ordered
    unfold Call.lastChunk at hlast
    unfold Call.lowerIn Call.firstChunk
    split <;> omega
  next => omega

theorem Call.endChunk_le {c : Call} : c.endChunk chunkSize ≤ c.lastChunk chunkSize := by
  unfold Call.endChunk
  split <;> omega

theorem Call.Marks.touches {c : Call} {k : Nat} (h : c.Marks chunkSize k) :
    c.Touches chunkSize k := ⟨h.1, le_trans h.2 Call.endChunk_le⟩

theorem Call.Marks.endIn_le_upperIn (hsize : 1 ≤ chunkSize) {c : Call} {k : Nat}
    (h : c.Marks chunkSize k) : c.endIn chunkSize k ≤ c.upperIn chunkSize k := by
  by_cases hlast : k = c.lastChunk chunkSize
  · have hend : k = c.endChunk chunkSize :=
      Nat.le_antisymm h.2 (le_trans Call.endChunk_le (Nat.le_of_eq hlast.symm))
    rw [Call.endIn, if_pos hend, Call.upperIn, if_pos hlast]
  · rw [Call.upperIn, if_neg hlast]
    exact c.endIn_le hsize k

theorem mem_calls {cl : List Call} {k : Nat} {chunk : Chunk} :
    (k, chunk) ∈ (calls chunkSize cl).toList ↔ (calls chunkSize cl)[k]? = some chunk :=
  Std.TreeMap.mem_toList_iff_getElem?_eq_some

theorem div_mod_add (hsize : 1 ≤ chunkSize) {k v : Nat} (hv : v < chunkSize) :
    (k * chunkSize + v) / chunkSize = k ∧ (k * chunkSize + v) % chunkSize = v := by
  rw [Nat.mul_comm]
  exact ⟨by rw [Nat.mul_add_div hsize, Nat.div_eq_of_lt hv, Nat.add_zero],
    by rw [Nat.mul_add_mod, Nat.mod_eq_of_lt hv]⟩

theorem added_ends (hsize : 1 ≤ chunkSize) {cl : List Call} {c : Call} (hc : c ∈ cl)
    (hrange : c.InRange chunkSize) {k : Nat} (h : c.Touches chunkSize k) :
    Added cl (k * chunkSize + c.lowerIn chunkSize k) ∧
    Added cl (k * chunkSize + c.upperIn chunkSize k) := by
  have hle := hrange.lowerIn_le_upperIn hsize k
  have hupper : c.upperIn chunkSize k < chunkSize := by
    have hmod : c.upper % chunkSize < chunkSize := Nat.mod_lt _ hsize
    unfold Call.upperIn
    split <;> omega
  obtain ⟨hdivl, hmodl⟩ := div_mod_add (k := k) hsize (lt_of_le_of_lt hle hupper)
  obtain ⟨hdivu, hmodu⟩ := div_mod_add (k := k) hsize hupper
  refine ⟨⟨c, hc, (Call.adds_iff hsize _).mpr ?_⟩, ⟨c, hc, (Call.adds_iff hsize _).mpr ?_⟩⟩
  · rw [hdivl, hmodl]
    exact ⟨h, le_refl _, hle⟩
  · rw [hdivu, hmodu]
    exact ⟨h, hle, le_refl _⟩

section
variable (hsize : 1 ≤ chunkSize) (hmax : chunkSize ≤ 65535) {cl : List Call}
    (hcl : ∀ c ∈ cl, c.InRange chunkSize)
include hsize hmax hcl

/-- The range kept for a chunk begins where some marking call begins there. -/
theorem kept_first {k : Nat} {chunk : Chunk} (h : (calls chunkSize cl)[k]? = some chunk) :
    (∃ c ∈ cl, c.Marks chunkSize k ∧ c.lowerIn chunkSize k = chunk.first) ∧
    ∀ c ∈ cl, c.Marks chunkSize k → chunk.first ≤ c.lowerIn chunkSize k := by
  have hkeeps := calls_keeps hsize hmax k cl hcl
  rw [h] at hkeeps
  refine ⟨?_, hkeeps.firstLe⟩
  rcases hkeeps.firstEq with ⟨hnone, _⟩ | hsome
  · exact absurd hnone (by simp)
  · exact hsome

theorem kept_last {k : Nat} {chunk : Chunk} (h : (calls chunkSize cl)[k]? = some chunk) :
    (chunk.last = 0 ∨ Recorded chunkSize cl k chunk.last) ∧
    ∀ v, Recorded chunkSize cl k v → v ≤ chunk.last := by
  have hkeeps := calls_keeps hsize hmax k cl hcl
  rw [h] at hkeeps
  exact ⟨hkeeps.lastEq, hkeeps.lastGe⟩

theorem kept_some {k : Nat} {c : Call} (hc : c ∈ cl) (hmarks : c.Marks chunkSize k) :
    ∃ chunk, (calls chunkSize cl)[k]? = some chunk :=
  Option.isSome_iff_exists.mp ((calls_keeps hsize hmax k cl hcl).isSome.mpr ⟨c, hc, hmarks⟩)

theorem calls_entry : ∀ e ∈ (calls chunkSize cl).toList, Entry chunkSize e := by
  rintro ⟨k, chunk⟩ he
  have h := mem_calls.mp he
  obtain ⟨⟨c, hc, hmarks, hfirst⟩, _⟩ := kept_first hsize hmax hcl h
  have hlast := (calls_keeps hsize hmax k cl hcl).last_le hsize
  rw [h, Option.getD_some] at hlast
  refine ⟨lt_of_le_of_lt hmarks.touches.2 (hcl c hc).chunk, ?_, ?_⟩
  · show chunk.first < chunkSize
    rw [← hfirst]
    exact c.lowerIn_lt hsize k
  · show chunk.last < chunkSize
    omega

theorem covers_interval (q : Nat) :
    Covers ((calls chunkSize cl).toList.map (interval chunkSize)) q ↔
      ∃ chunk, (calls chunkSize cl)[q / chunkSize]? = some chunk ∧
        chunk.first ≤ q % chunkSize ∧ q % chunkSize ≤ chunk.last := by
  have hq := Nat.div_add_mod q chunkSize
  rw [Nat.mul_comm] at hq
  constructor
  · rintro ⟨r, hr, hle, hge⟩
    obtain ⟨⟨k, chunk⟩, he, rfl⟩ := List.mem_map.mp hr
    have hentry := calls_entry hsize hmax hcl _ he
    have hfirst := hentry.first
    have hlast := hentry.last
    obtain ⟨v, hv, rfl⟩ : ∃ v, v < chunkSize ∧ q = k * chunkSize + v := by
      simp only [interval] at hle hge hlast
      exact ⟨q - k * chunkSize, by omega, by omega⟩
    obtain ⟨hdiv, hmod⟩ := div_mod_add (k := k) hsize hv
    rw [hdiv, hmod]
    simp only [interval] at hle hge
    exact ⟨chunk, mem_calls.mp he, by omega, by omega⟩
  · rintro ⟨chunk, hchunk, hle, hge⟩
    refine ⟨_, List.mem_map_of_mem (mem_calls.mpr hchunk), ?_, ?_⟩
    · simp only [interval]
      omega
    · simp only [interval]
      omega

/-- When no kept range is reversed, the ranges reported are increasing and cover just the
kept ranges. -/
theorem forEachRange_spec
    (hle : ∀ (k : Nat) (chunk : Chunk), (calls chunkSize cl)[k]? = some chunk → chunk.first ≤ chunk.last) :
    Increasing (forEachRange chunkSize (calls chunkSize cl)) ∧
    ∀ q, Covers (forEachRange chunkSize (calls chunkSize cl)) q ↔
      ∃ chunk, (calls chunkSize cl)[q / chunkSize]? = some chunk ∧
        chunk.first ≤ q % chunkSize ∧ q % chunkSize ≤ chunk.last := by
  obtain ⟨hincreasing, hcovers⟩ := Ranges.before_start.foldl hmax (calls chunkSize cl).toList _ _
    (fun e _ => Nat.zero_le _) (toList_sorted _) (calls_entry hsize hmax hcl)
    (fun e he => hle e.1 e.2 (mem_calls.mp he))
  refine ⟨hincreasing, fun q => (hcovers q).trans ?_⟩
  rw [covers_interval hsize hmax hcl]
  have hempty : ¬Covers (Ranges.finish {}) q := by
    rintro ⟨r, hr, _⟩
    exact absurd hr List.not_mem_nil
  simp only [hempty, false_or]

theorem forEachRange_reversed {k : Nat} {chunk : Chunk}
    (h : (calls chunkSize cl)[k]? = some chunk) (hlt : chunk.last < chunk.first) :
    ∃ r ∈ forEachRange chunkSize (calls chunkSize cl), r.2 < r.1 := by
  refine ⟨_, Ranges.foldl_reversed hmax _ {} 0 (Or.inr rfl) (fun e _ => Nat.zero_le _)
    (toList_sorted _) (calls_entry hsize hmax hcl) (k, chunk) (mem_calls.mpr h) hlt, ?_⟩
  exact Nat.add_lt_add_left hlt _

/-- Under the condition a kept range spans what was added in its chunk. -/
theorem Kept.spans (hkept : Kept chunkSize cl) {k : Nat} {chunk : Chunk}
    (h : (calls chunkSize cl)[k]? = some chunk) :
    (∃ c ∈ cl, c.Touches chunkSize k ∧ c.lowerIn chunkSize k = chunk.first) ∧
    (∀ c ∈ cl, c.Touches chunkSize k → chunk.first ≤ c.lowerIn chunkSize k) ∧
    (∃ c ∈ cl, c.Touches chunkSize k ∧ chunk.last ≤ c.upperIn chunkSize k) ∧
    ∀ c ∈ cl, c.Touches chunkSize k → c.upperIn chunkSize k ≤ chunk.last := by
  obtain ⟨⟨c, hc, hmarks, hfirst⟩, hle⟩ := kept_first hsize hmax hcl h
  obtain ⟨hlast, hge⟩ := kept_last hsize hmax hcl h
  obtain ⟨⟨d, hd, hdmarks, hdmin⟩, v, hv, hvmax⟩ := hkept k ⟨c, hc, hmarks.touches⟩
  refine ⟨⟨c, hc, hmarks.touches, hfirst⟩, ?_, ?_, ?_⟩
  · intro c' hc' ht
    exact le_trans (hle d hd hdmarks) (hdmin c' hc' ht)
  · rcases hlast with h0 | ⟨before, e, after, heq, hemarks, hend, _⟩
    · exact ⟨c, hc, hmarks.touches, by rw [h0]; exact Nat.zero_le _⟩
    · refine ⟨e, ?_, hemarks.touches, hend ▸ hemarks.endIn_le_upperIn hsize⟩
      rw [heq]
      exact List.mem_append_right _ List.mem_cons_self
  · intro c' hc' ht
    refine le_trans (hvmax c' hc' ht) ?_
    rcases hv with rfl | hrec
    · exact Nat.zero_le _
    · exact hge v hrec

theorem reports_of_kept (hkept : Kept chunkSize cl) : ReportsDirty chunkSize cl := by
  have hspans := fun (k : Nat) (chunk : Chunk) h =>
    @Kept.spans chunkSize hsize hmax cl hcl hkept k chunk h
  have hle : ∀ (k : Nat) (chunk : Chunk), (calls chunkSize cl)[k]? = some chunk → chunk.first ≤ chunk.last := by
    intro k chunk h
    obtain ⟨⟨c, hc, ht, hfirst⟩, _, _, hupper⟩ := hspans k chunk h
    rw [← hfirst]
    exact le_trans ((hcl c hc).lowerIn_le_upperIn hsize k) (hupper c hc ht)
  obtain ⟨hincreasing, hcovers⟩ := forEachRange_spec hsize hmax hcl hle
  have hadded : ∀ p, Added cl p → Covers (forEachRange chunkSize (calls chunkSize cl)) p := by
    rintro p ⟨c, hc, hp⟩
    obtain ⟨ht, hlower, hupper⟩ := (Call.adds_iff hsize p).mp hp
    obtain ⟨⟨d, hd, hdmarks, _⟩, _⟩ := hkept (p / chunkSize) ⟨c, hc, ht⟩
    obtain ⟨chunk, hchunk⟩ := kept_some hsize hmax hcl hd hdmarks
    obtain ⟨_, hfirst, _, hlast⟩ := hspans _ _ hchunk
    exact (hcovers p).mpr ⟨chunk, hchunk, le_trans (hfirst c hc ht) hlower,
      le_trans hupper (hlast c hc ht)⟩
  refine ⟨hincreasing, hadded, fun q => ⟨fun hq => ?_, ?_⟩⟩
  · obtain ⟨chunk, hchunk, hfirst, hlast⟩ := (hcovers q).mp hq
    obtain ⟨⟨c, hc, ht, hceq⟩, _, ⟨d, hd, hdt, hdle⟩, _⟩ := hspans _ _ hchunk
    have hq := Nat.div_add_mod q chunkSize
    rw [Nat.mul_comm] at hq
    have hupper : d.upperIn chunkSize (q / chunkSize) < chunkSize := by
      have hmod : d.upper % chunkSize < chunkSize := Nat.mod_lt _ hsize
      unfold Call.upperIn
      split <;> omega
    exact ⟨_, _, (added_ends hsize hc (hcl c hc) ht).1, (added_ends hsize hd (hcl d hd) hdt).2,
      (div_mod_add hsize (c.lowerIn_lt hsize _)).1, (div_mod_add hsize hupper).1,
      by omega, by omega⟩
  · rintro ⟨a, b, ha, hb, hadiv, hbdiv, haq, hqb⟩
    obtain ⟨chunk, hchunk, hfirst, _⟩ := (hcovers a).mp (hadded a ha)
    obtain ⟨chunk', hchunk', _, hlast⟩ := (hcovers b).mp (hadded b hb)
    rw [hadiv] at hchunk
    rw [hbdiv] at hchunk'
    have heq : chunk = chunk' := Option.some.inj (hchunk.symm.trans hchunk')
    have hlow := (le_iff_chunk hsize a q).mp haq
    have hhigh := (le_iff_chunk hsize q b).mp hqb
    refine (hcovers q).mpr ⟨chunk, hchunk, by omega, ?_⟩
    rw [heq]
    omega

theorem kept_of_reports (h : ReportsDirty chunkSize cl) : Kept chunkSize cl := by
  have hle : ∀ (k : Nat) (chunk : Chunk), (calls chunkSize cl)[k]? = some chunk → chunk.first ≤ chunk.last := by
    intro k chunk hchunk
    refine Nat.le_of_not_lt fun hlt => ?_
    obtain ⟨r, hr, hrlt⟩ := forEachRange_reversed hsize hmax hcl hchunk hlt
    exact absurd (h.increasing.le r hr) (Nat.not_le_of_lt hrlt)
  obtain ⟨_, hcovers⟩ := forEachRange_spec hsize hmax hcl hle
  have hends : ∀ k, ∀ c ∈ cl, c.Touches chunkSize k → ∃ chunk,
      (calls chunkSize cl)[k]? = some chunk ∧ chunk.first ≤ c.lowerIn chunkSize k ∧
        c.upperIn chunkSize k ≤ chunk.last := by
    intro k c hc ht
    obtain ⟨hlower, hupper⟩ := added_ends hsize hc (hcl c hc) ht
    have hbound : c.upperIn chunkSize k < chunkSize := by
      have hmod : c.upper % chunkSize < chunkSize := Nat.mod_lt _ hsize
      unfold Call.upperIn
      split <;> omega
    obtain ⟨chunk, hchunk, hfirst, _⟩ := (hcovers _).mp (h.added _ hlower)
    obtain ⟨chunk', hchunk', _, hlast⟩ := (hcovers _).mp (h.added _ hupper)
    obtain ⟨hdiv, hmod⟩ := div_mod_add (k := k) hsize (c.lowerIn_lt hsize k)
    obtain ⟨hdiv', hmod'⟩ := div_mod_add (k := k) hsize hbound
    rw [hdiv] at hchunk
    rw [hmod] at hfirst
    rw [hdiv'] at hchunk'
    rw [hmod'] at hlast
    rw [Option.some.inj (hchunk'.symm.trans hchunk)] at hlast
    exact ⟨chunk, hchunk, hfirst, hlast⟩
  rintro k ⟨c, hc, ht⟩
  obtain ⟨chunk, hchunk, _, _⟩ := hends k c hc ht
  obtain ⟨⟨d, hd, hdmarks, hdeq⟩, _⟩ := kept_first hsize hmax hcl hchunk
  have hall : ∀ c' ∈ cl, c'.Touches chunkSize k → chunk.first ≤ c'.lowerIn chunkSize k ∧
      c'.upperIn chunkSize k ≤ chunk.last := by
    intro c' hc' ht'
    obtain ⟨chunk', hchunk', hends'⟩ := hends k c' hc' ht'
    rwa [Option.some.inj (hchunk'.symm.trans hchunk)] at hends'
  refine ⟨⟨d, hd, hdmarks, fun c' hc' ht' => ?_⟩, chunk.last, ?_, fun c' hc' ht' => ?_⟩
  · rw [hdeq]
    exact (hall c' hc' ht').1
  · exact (kept_last hsize hmax hcl hchunk).1
  · exact (hall c' hc' ht').2

end

/-- The tracker reports every dirty item exactly when the ends its calls have were kept. -/
theorem reports_iff_kept (hsize : 1 ≤ chunkSize) (hmax : chunkSize ≤ 65535) (cl : List Call)
    (hcl : ∀ c ∈ cl, c.InRange chunkSize) :
    ReportsDirty chunkSize cl ↔ Kept chunkSize cl :=
  ⟨kept_of_reports hsize hmax hcl, reports_of_kept hsize hmax hcl⟩

/-- Three ranges over three chunks of sixteen, with the last chunk added once more. -/
theorem reports_iff_kept_overlap :
    let cl : List Call := [.addItems 3 40, .addItems 32 47, .addItem 35]
    ReportsDirty 16 cl ↔ Kept 16 cl :=
  reports_iff_kept (by decide) (by decide) _ (by
    intro c hc
    rcases List.mem_cons.mp hc with rfl | hc
    · exact ⟨by decide, by decide, by decide⟩
    · rcases List.mem_cons.mp hc with rfl | hc
      · exact ⟨by decide, by decide, by decide⟩
      · rw [List.mem_singleton.mp hc]
        exact ⟨by decide, by decide, by decide⟩)

/-- The first item added to a chunk leaves the end of the kept range at 0. -/
theorem addItem_reversed :
    (Call.addItem 5).InRange 16 ∧ forEachRange 16 (calls 16 [.addItem 5]) = [(5, 0)] ∧
    ¬ReportsDirty 16 [.addItem 5] := by
  have hranges : forEachRange 16 (calls 16 [.addItem 5]) = [(5, 0)] := by decide +kernel
  refine ⟨⟨by decide, by decide, by decide⟩, hranges, fun h => ?_⟩
  have hle := h.increasing.le
  rw [hranges] at hle
  exact absurd (hle (5, 0) (List.mem_singleton_self _)) (by decide)

end CosmicArchitect.Util.DirtyRangeTracker
