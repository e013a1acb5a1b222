import CosmicArchitect.Util.DirtyChunks

/-!
# The runs the dirty trackers report

Both `ForEachRange` walk their chunks in order and keep one range open. The range tracker hands
over the maximal runs of the positions kept. The chunk tracker marks "no range open" by the
index 65535 and starts its previous index at 65534, which are indices of chunks, too.
-/

namespace CosmicArchitect.Util

open Library

namespace DirtyRangeTracker

variable {chunkSize : Nat}

/-- Every chunk's range lies in its chunk, and all positions are below 2^31. -/
structure WellFormed (chunkSize : Nat) (chunks : Chunks) : Prop where
  size : chunkSize ≤ 65535
  index : ∀ (k : Nat) (chunk : Chunk), chunks[k]? = some chunk → k < 65536
  ordered : ∀ (k : Nat) (chunk : Chunk), chunks[k]? = some chunk → chunk.first ≤ chunk.last
  last : ∀ (k : Nat) (chunk : Chunk), chunks[k]? = some chunk → chunk.last < chunkSize
  position : ∀ (k : Nat) (chunk : Chunk), chunks[k]? = some chunk →
    k * chunkSize + chunk.last < 2 ^ 31

/-- Position `q` lies in the range of a chunk. -/
def InChunks (chunkSize : Nat) (chunks : Chunks) (q : Nat) : Prop :=
  ∃ (k : Nat) (chunk : Chunk), chunks[k]? = some chunk ∧
    k * chunkSize + chunk.first ≤ q ∧ q ≤ k * chunkSize + chunk.last

/-- The ranges found in front of chunk `k` have gaps between them, and none goes on behind the
position the loop saw last. -/
structure Ranges.Apart (chunkSize : Nat) (r : Ranges) (k : Nat) : Prop where
  spaced : Spaced 1 r.finish
  ends : ∀ x ∈ r.finish, x.2 ≤ r.previousChunkEnd ∧ r.previousChunkEnd < k * chunkSize

theorem Ranges.Apart.next {r : Ranges} {entry : Nat × Chunk} {k : Nat}
    (h : r.Apart chunkSize k) (hbefore : r.Before chunkSize k) (hk : k ≤ entry.1)
    (hentry : Entry chunkSize entry) (hmax : chunkSize ≤ 65535)
    (hle : entry.2.first ≤ entry.2.last) :
    (r.next chunkSize entry).Apart chunkSize (entry.1 + 1) := by
  have hmul : k * chunkSize ≤ entry.1 * chunkSize := Nat.mul_le_mul_right _ hk
  obtain ⟨hbegin, hinterval, hend⟩ := hentry.interval_within hle
  -- what was found before ends in front of the chunk's range
  have hold : ∀ x ∈ r.finish, x.2 < (interval chunkSize entry).1 := by
    intro x hx
    have := h.ends x hx
    omega
  rcases Ranges.finish_next hbefore hk hentry hmax with ⟨l, b, hopen, hjoin, hnew⟩ | ⟨hgap, hnew⟩
  · have hspaced := h.spaced
    rw [hopen] at hspaced hold
    constructor
    · rw [hnew]
      exact hspaced.extend (by omega)
    · rw [hnew, r.next_previousChunkEnd]
      intro x hx
      rcases List.mem_append.mp hx with hx | hx
      · have := hold x (List.mem_append_left _ hx)
        omega
      · rw [List.mem_singleton.mp hx]
        exact ⟨Nat.le_refl _, hend⟩
  · constructor
    · rw [hnew]
      apply h.spaced.append hinterval
      intro x hx
      have := h.ends x hx
      omega
    · rw [hnew, r.next_previousChunkEnd]
      intro x hx
      rcases List.mem_append.mp hx with hx | hx
      · have := hold x hx
        omega
      · rw [List.mem_singleton.mp hx]
        exact ⟨Nat.le_refl _, hend⟩

theorem Ranges.Apart.foldl (hmax : chunkSize ≤ 65535) (entries : List (Nat × Chunk))
    (hsorted : entries.Pairwise fun e e' => e.1 < e'.1)
    (hentry : ∀ e ∈ entries, Entry chunkSize e) (hle : ∀ e ∈ entries, e.2.first ≤ e.2.last) :
    ∀ (r : Ranges) (k : Nat), r.Apart chunkSize k → r.Before chunkSize k →
      (∀ e ∈ entries, k ≤ e.1) → Spaced 1 (entries.foldl (Ranges.next chunkSize) r).finish := by
  induction entries with
  | nil => exact fun r k h _ _ => h.spaced
  | cons e entries ih =>
    intro r k h hbefore hk
    have hk' := hk e List.mem_cons_self
    have hentry' := hentry e List.mem_cons_self
    have hle' := hle e List.mem_cons_self
    obtain ⟨hfirst, hrest⟩ := List.pairwise_cons.mp hsorted
    exact ih hrest (fun d hd => hentry d (List.mem_cons_of_mem _ hd))
      (fun d hd => hle d (List.mem_cons_of_mem _ hd)) _ (e.1 + 1)
      (h.next hbefore hk' hentry' hmax hle') (hbefore.next hk' hentry' hmax hle').1 hfirst

/-- `ForEachRange` hands over the maximal runs of the positions in the chunks, in order. -/
theorem forEachRange_maximalRuns (chunks : Chunks) (h : WellFormed chunkSize chunks) :
    MaximalRuns (InChunks chunkSize chunks) (forEachRange chunkSize chunks) := by
  have hmem : ∀ e ∈ chunks.toList, chunks[e.1]? = some e.2 := fun e he =>
    Std.TreeMap.mem_toList_iff_getElem?_eq_some.mp he
  have hle : ∀ e ∈ chunks.toList, e.2.first ≤ e.2.last := fun e he =>
    h.ordered e.1 e.2 (hmem e he)
  have hentry : ∀ e ∈ chunks.toList, Entry chunkSize e := by
    intro e he
    have hlast := h.last e.1 e.2 (hmem e he)
    exact ⟨h.index e.1 e.2 (hmem e he), Nat.lt_of_le_of_lt (hle e he) hlast, hlast⟩
  have hstart : Ranges.Apart chunkSize {} 0 :=
    ⟨spaced_nil, fun x hx => absurd hx List.not_mem_nil⟩
  have hspaced := hstart.foldl h.size _ (toList_sorted chunks) hentry hle _ _
    Ranges.before_start fun e _ => Nat.zero_le _
  apply hspaced.maximalRuns
  intro q
  have hcovers := (Ranges.before_start.foldl h.size _ _ _ (fun e _ => Nat.zero_le _)
    (toList_sorted chunks) hentry hle).2 q
  constructor
  · intro hq
    obtain ⟨k, chunk, hchunk, hrange⟩ := hq
    apply hcovers.mpr
    right
    exact ⟨interval chunkSize (k, chunk),
      List.mem_map_of_mem (Std.TreeMap.mem_toList_iff_getElem?_eq_some.mpr hchunk), hrange⟩
  · intro hq
    rcases hcovers.mp hq with hnone | hrange
    · obtain ⟨x, hx, _⟩ := hnone
      exact absurd hx List.not_mem_nil
    · obtain ⟨x, hx, hrange⟩ := hrange
      obtain ⟨e, he, rfl⟩ := List.mem_map.mp hx
      exact ⟨e.1, e.2, hmem e he, hrange⟩

/-- A run over three chunks of sixteen and one of its own in the chunk behind them. -/
theorem forEachRange_maximalRuns_three :
    let entries : List (Nat × Chunk) :=
      [(1, ⟨4, 15⟩), (2, ⟨0, 15⟩), (3, ⟨0, 2⟩), (4, ⟨7, 9⟩)]
    let chunks : Chunks := .ofList entries
    WellFormed 16 chunks ∧ forEachRange 16 chunks = [(20, 50), (71, 73)] ∧
    MaximalRuns (InChunks 16 chunks) (forEachRange 16 chunks) := by
  intro entries chunks
  have hentries : ∀ (k : Nat) (chunk : Chunk), chunks[k]? = some chunk →
      k < 65536 ∧ chunk.first ≤ chunk.last ∧ chunk.last < 16 ∧ k * 16 + chunk.last < 2 ^ 31 := by
    intro k chunk hchunk
    have hmem : (k, chunk) ∈ chunks.toList :=
      Std.TreeMap.mem_toList_iff_getElem?_eq_some.mpr hchunk
    have hall : ∀ e ∈ chunks.toList, e.1 < 65536 ∧ e.2.first ≤ e.2.last ∧ e.2.last < 16 ∧
        e.1 * 16 + e.2.last < 2 ^ 31 := by decide +kernel
    exact hall _ hmem
  have hwell : WellFormed 16 chunks := ⟨by decide, fun k c hc => (hentries k c hc).1,
    fun k c hc => (hentries k c hc).2.1, fun k c hc => (hentries k c hc).2.2.1,
    fun k c hc => (hentries k c hc).2.2.2⟩
  exact ⟨hwell, by decide +kernel, forEachRange_maximalRuns chunks hwell⟩

end DirtyRangeTracker

namespace DirtyChunkTracker

open DirtyRangeTracker (Covers)

/-- What the loop of `ForEachRange` has made of the chunks `l`: ranges with gaps between them
that cover just these, the last of them open. -/
structure Ranges.Scanned (r : Ranges) (l : List Nat) : Prop where
  between : r.Between
  spaced : Spaced 1 r.finish
  covers : ∀ q, Covers r.finish q ↔ q ∈ l
  ends : ∀ j ∈ l, j ≤ r.lastChunkIndex ∧ r.multichunkRangeBegin ≠ 65535

theorem Ranges.Scanned.le {r : Ranges} {l : List Nat} (h : r.Scanned l) {x : Nat × Nat}
    (hx : x ∈ r.finish) : x.2 ∈ l :=
  (h.covers x.2).mp ⟨x, hx, h.spaced.le x hx, Nat.le_refl _⟩

theorem Ranges.Scanned.seen {r : Ranges} {l : List Nat} (h : r.Scanned l)
    (hopen : r.multichunkRangeBegin ≠ 65535) : r.lastChunkIndex ∈ l := by
  obtain ⟨hle, hend⟩ := h.between.opened hopen
  apply (h.covers _).mp
  rw [Ranges.finish, if_pos hopen, hend]
  exact ⟨_, List.mem_append_right _ (List.mem_singleton_self _), hle, Nat.le_refl _⟩

theorem Ranges.Scanned.spaced_join {r : Ranges} {l : List Nat} (h : r.Scanned l) {i : Nat}
    (hopen : r.multichunkRangeBegin ≠ 65535) (hjoin : r.lastChunkIndex + 1 = i) :
    Spaced 1 (r.next i).finish := by
  obtain ⟨hold, hnew⟩ := h.between.finish_join hopen hjoin
  have hspaced := h.spaced
  rw [hold] at hspaced
  rw [hnew]
  exact hspaced.extend (by omega)

theorem Ranges.Scanned.spaced_gap {r : Ranges} {l : List Nat} (h : r.Scanned l) {i : Nat}
    (hl : ∀ j ∈ l, j < i) (hgap : r.lastChunkIndex + 1 ≠ i) (hi : i ≠ 65535) :
    Spaced 1 (r.next i).finish := by
  rw [Ranges.finish_gap hgap hi]
  apply h.spaced.append (Nat.le_refl _)
  intro x hx
  have hend := h.le hx
  obtain ⟨hlast, hopen⟩ := h.ends x.2 hend
  have hlt := hl x.2 hend
  have hbehind := hl _ (h.seen hopen)
  show x.2 + 1 < i
  omega

theorem Ranges.Scanned.next {r : Ranges} {l : List Nat} (h : r.Scanned l) {i : Nat}
    (hl : ∀ j ∈ l, j < i) (hi : i < 65535) : (r.next i).Scanned (l ++ [i]) := by
  obtain ⟨hbetween, hcovers⟩ := h.between.next hi
  refine ⟨hbetween, ?_, ?_, ?_⟩
  · by_cases hjoin : r.lastChunkIndex + 1 = i
    · exact h.spaced_join (h.between.opened_of_join hi hjoin) hjoin
    · exact h.spaced_gap hl hjoin (by omega)
  · intro q
    rw [hcovers, h.covers, List.mem_append, List.mem_singleton]
  · intro j hj
    have hlast := r.lastChunkIndex_next i
    constructor
    · rcases List.mem_append.mp hj with hj | hj
      · have := hl j hj
        omega
      · rw [List.mem_singleton.mp hj, hlast]
    · by_cases hjoin : r.lastChunkIndex + 1 = i
      · rw [Ranges.next, if_pos hjoin]
        exact h.between.opened_of_join hi hjoin
      · rw [(Ranges.reported_gap hjoin).2.1]
        omega

theorem scanned_foldl (l : List Nat) (hsorted : l.Pairwise fun i j => i < j)
    (hl : ∀ i ∈ l, i < 65535) : (l.foldl Ranges.next {}).Scanned l := by
  induction l using List.reverseRecOn with
  | nil =>
    refine ⟨⟨fun hne => absurd rfl hne, fun _ => rfl⟩, spaced_nil, fun q => ?_, ?_⟩
    · constructor
      · intro hq
        obtain ⟨x, hx, _⟩ := hq
        exact absurd hx List.not_mem_nil
      · exact fun hq => absurd hq List.not_mem_nil
    · exact fun j hj => absurd hj List.not_mem_nil
  | append_singleton l i ih =>
    obtain ⟨hinit, _, hlast⟩ := List.pairwise_append.mp hsorted
    have h := ih hinit fun j hj => hl j (List.mem_append_left _ hj)
    rw [List.foldl_append, List.foldl_cons, List.foldl_nil]
    exact h.next (fun j hj => hlast j hj i (List.mem_singleton_self _))
      (hl i (List.mem_append_right _ (List.mem_singleton_self _)))

/-- Behind a gap chunk 65535 is taken for "no range open". -/
theorem Ranges.Scanned.finish_lost {r : Ranges} {l : List Nat} (h : r.Scanned l)
    (hmem : 65534 ∉ l) : (r.next 65535).finish = r.finish := by
  by_cases hjoin : r.lastChunkIndex + 1 = 65535
  · have hclosed : r.multichunkRangeBegin = 65535 := by
      by_contra hopen
      have hseen := h.seen hopen
      have hlast : r.lastChunkIndex = 65534 := by omega
      rw [hlast] at hseen
      exact hmem hseen
    simp only [Ranges.next, if_pos hjoin, Ranges.finish, hclosed]
    rfl
  · obtain ⟨hreported, hbegin, _⟩ := Ranges.reported_gap hjoin
    rw [← hreported, Ranges.finish, hbegin]
    rfl

/-- Chunk 65535 is reported exactly when it goes on from chunk 65534. -/
theorem Ranges.Scanned.maximalRuns_last {r : Ranges} {l : List Nat} (h : r.Scanned l)
    (hl : ∀ j ∈ l, j < 65535) :
    MaximalRuns (· ∈ l ++ [65535]) (r.next 65535).finish ↔ 65534 ∈ l := by
  constructor
  · intro hruns
    by_contra hmem
    have hcovered := (hruns.union 65535).mp (List.mem_append_right _ (List.mem_singleton_self _))
    rw [h.finish_lost hmem] at hcovered
    have hlt := hl 65535 ((h.covers 65535).mp hcovered)
    omega
  · intro hmem
    obtain ⟨hlast, hopen⟩ := h.ends 65534 hmem
    have hlt := hl _ (h.seen hopen)
    have hjoin : r.lastChunkIndex + 1 = 65535 := by omega
    apply (h.spaced_join hopen hjoin).maximalRuns
    intro q
    rw [List.mem_append, List.mem_singleton, ← h.covers q]
    exact (h.between.covers_join hopen hjoin q).symm

theorem Ranges.Scanned.maximalRuns {r : Ranges} {l : List Nat} (h : r.Scanned l) :
    MaximalRuns (· ∈ l) r.finish :=
  h.spaced.maximalRuns fun q => (h.covers q).symm

/-- The chunks in order, with index 65535 split off. -/
theorem toList_split (chunks : Chunks) (h : ∀ k ∈ chunks, k < 65536) :
    ∃ l : List Nat, (l.Pairwise fun i j => i < j) ∧ (∀ j ∈ l, j < 65535) ∧
      chunks.toList = if 65535 ∈ chunks then l ++ [65535] else l := by
  have hsorted : chunks.toList.Pairwise fun i j => i < j := by
    have hordered := Std.TreeSet.ordered_toList (t := chunks)
    simpa only [Nat.compare_eq_lt] using hordered
  by_cases hmem : 65535 ∈ chunks
  · obtain ⟨l, rest, hlist⟩ := List.append_of_mem (Std.TreeSet.mem_toList.mpr hmem)
    rw [hlist] at hsorted
    obtain ⟨hl, hrest, hcross⟩ := List.pairwise_append.mp hsorted
    -- nothing is behind index 65535
    have hnil : rest = [] := by
      apply List.eq_nil_iff_forall_not_mem.mpr
      intro j hj
      have hgt := (List.pairwise_cons.mp hrest).1 j hj
      have hlt := h j (Std.TreeSet.mem_toList.mp (by
        rw [hlist]
        exact List.mem_append_right _ (List.mem_cons_of_mem _ hj)))
      omega
    refine ⟨l, hl, fun j hj => hcross j hj 65535 List.mem_cons_self, ?_⟩
    rw [if_pos hmem, hlist, hnil]
  · refine ⟨chunks.toList, hsorted, fun j hj => ?_, (if_neg hmem).symm⟩
    have hlt := h j (Std.TreeSet.mem_toList.mp hj)
    have hne : j ≠ 65535 := by
      intro heq
      rw [heq] at hj
      exact hmem (Std.TreeSet.mem_toList.mp hj)
    omega

/-- `ForEachRange` hands over the maximal runs of the set exactly when index 65535 is not in it
without 65534. -/
theorem forEachRange_maximalRuns_iff (chunks : Chunks) (h : ∀ k ∈ chunks, k < 65536) :
    MaximalRuns (· ∈ chunks) (forEachRange chunks) ↔ (65535 ∈ chunks → 65534 ∈ chunks) := by
  obtain ⟨l, hsorted, hl, hlist⟩ := toList_split chunks h
  have hscanned := scanned_foldl l hsorted hl
  have hset : (· ∈ chunks) = (· ∈ chunks.toList) :=
    funext fun k => propext Std.TreeSet.mem_toList.symm
  rw [forEachRange, hset]
  by_cases hmem : 65535 ∈ chunks
  · rw [if_pos hmem] at hlist
    have hbefore : 65534 ∈ chunks ↔ 65534 ∈ l := by
      rw [← Std.TreeSet.mem_toList, hlist, List.mem_append, List.mem_singleton]
      exact or_iff_left (by decide)
    rw [hlist, List.foldl_append, List.foldl_cons, List.foldl_nil, hscanned.maximalRuns_last hl,
      hbefore]
    exact ⟨fun hl _ => hl, fun hl => hl hmem⟩
  · rw [if_neg hmem] at hlist
    rw [hlist]
    exact iff_of_true hscanned.maximalRuns fun hin => absurd hin hmem

theorem forEachRange_maximalRuns_iff_end :
    let chunks : Chunks := .ofList [3, 65534, 65535]
    MaximalRuns (· ∈ chunks) (forEachRange chunks) ↔ (65535 ∈ chunks → 65534 ∈ chunks) := by
  intro chunks
  apply forEachRange_maximalRuns_iff
  intro k hk
  have hall : ∀ j ∈ chunks.toList, j < 65536 := by decide +kernel
  exact hall k (Std.TreeSet.mem_toList.mpr hk)

/-- Chunk 65535 alone, and behind a gap, is not reported. -/
theorem forEachRange_last_lost :
    let chunks : Chunks := .ofList [3, 65535]
    (∀ k ∈ chunks, k < 65536) ∧ forEachRange chunks = [(3, 3)] ∧
    forEachRange (.ofList [65535]) = [] ∧ ¬MaximalRuns (· ∈ chunks) (forEachRange chunks) := by
  intro chunks
  have hranges : forEachRange chunks = [(3, 3)] := by decide +kernel
  have hall : ∀ j ∈ chunks.toList, j < 65536 := by decide +kernel
  refine ⟨fun k hk => hall k (Std.TreeSet.mem_toList.mpr hk), hranges, by decide +kernel, ?_⟩
  intro hruns
  have hmem : 65535 ∈ chunks := by decide +kernel
  obtain ⟨x, hx, _, hle⟩ := (hruns.union 65535).mp hmem
  rw [hranges] at hx
  rw [List.mem_singleton.mp hx] at hle
  exact absurd hle (by decide)

end DirtyChunkTracker

end CosmicArchitect.Util
