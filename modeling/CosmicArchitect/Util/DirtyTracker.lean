import Mathlib.Tactic.Common
import Mathlib.Algebra.Ring.Nat
import Mathlib.Data.List.Induction

/-!
# Tracking the dirty ranges of chunked data (Util/DirtyTracker.h, DirtyTracker.cpp)

Positions are grouped in chunks of `chunkSize` items. The tracker keeps one range for each
chunk that was marked and reports the ranges in order, joined where they touch.
-/

namespace CosmicArchitect.Util.DirtyRangeTracker

structure Chunk where
  first : Nat := 65535
  last : Nat := 0
deriving DecidableEq, Repr

abbrev Chunks := Std.TreeMap Nat Chunk

/-- `m_chunks[chunk_index]`, changed in place. -/
def modifyChunk (chunks : Chunks) (chunkIndex : Nat) (f : Chunk → Chunk) : Chunks :=
  chunks.alter chunkIndex fun chunk => some (f (chunk.getD {}))

def chunkIndex (chunkSize pos : Nat) : Nat := pos / chunkSize % 65536

/-- The update of one range inside one chunk. -/
def Chunk.add (start finish : Nat) (chunk : Chunk) : Chunk :=
  if start < chunk.first then { chunk with first := start }
  else if finish > chunk.last then { chunk with last := finish }
  else chunk

def addItem (chunkSize : Nat) (chunks : Chunks) (pos : Nat) : Chunks :=
  let posInChunk := pos % chunkSize
  modifyChunk chunks (chunkIndex chunkSize pos) (Chunk.add posInChunk posInChunk)

/-- The loop over the chunks in the middle (lines 60-66): `turns` bounds its turns. -/
def fillChunks (chunkSize lastChunkIndex : Nat) : Nat → Nat → Chunks → Nat × Chunks
  | 0, chunkIndex, chunks => (chunkIndex, chunks)
  | turns + 1, chunkIndex, chunks =>
    if chunkIndex < lastChunkIndex - 1 then
      fillChunks chunkSize lastChunkIndex turns (chunkIndex + 1)
        (modifyChunk chunks chunkIndex fun _ => ⟨0, chunkSize - 1⟩)
    else (chunkIndex, chunks)

def addItems (chunkSize : Nat) (chunks : Chunks) (first last : Nat) : Chunks :=
  let firstChunkIndex := chunkIndex chunkSize first
  let startInFirstChunk := first % chunkSize
  let lastChunkIndex := chunkIndex chunkSize last
  let endInLastChunk := last % chunkSize
  if firstChunkIndex = lastChunkIndex then
    modifyChunk chunks firstChunkIndex (Chunk.add startInFirstChunk endInLastChunk)
  else
    let chunks := modifyChunk chunks firstChunkIndex fun chunk =>
      { first := if startInFirstChunk < chunk.first then startInFirstChunk else chunk.first
        last := chunkSize - 1 }
    let (chunkIndex, chunks) :=
      fillChunks chunkSize lastChunkIndex lastChunkIndex (firstChunkIndex + 1) chunks
    modifyChunk chunks chunkIndex fun chunk =>
      { first := 0
        last := if endInLastChunk > chunk.last then endInLastChunk else chunk.last }

/-- The variables of `ForEachRange` and the ranges handed to the callback so far. -/
structure Ranges where
  reported : List (Nat × Nat) := []
  multichunkRangeBegin : Nat := 4294967295
  multichunkRangeEnd : Nat := 4294967295
  previousChunkEnd : Nat := 4294967294
deriving DecidableEq, Repr

/-- One turn of the loop of `ForEachRange`. -/
def Ranges.next (chunkSize : Nat) (r : Ranges) (entry : Nat × Chunk) : Ranges :=
  let chunkBegin := entry.1 * chunkSize
  let first := chunkBegin + entry.2.first
  let last := chunkBegin + entry.2.last
  let touchesNextChunk := entry.2.last = chunkSize - 1
  if r.previousChunkEnd + 1 = first then
    if touchesNextChunk then { r with multichunkRangeEnd := last, previousChunkEnd := last }
    else
      { reported := r.reported ++ [(r.multichunkRangeBegin, last)]
        multichunkRangeBegin := 4294967295
        multichunkRangeEnd := last
        previousChunkEnd := last }
  else
    let r := if r.multichunkRangeBegin ≠ 4294967295 then
        { r with
          reported := r.reported ++ [(r.multichunkRangeBegin, r.multichunkRangeEnd)]
          multichunkRangeBegin := 4294967295 }
      else r
    if touchesNextChunk then
      { r with
        multichunkRangeBegin := first
        multichunkRangeEnd := last
        previousChunkEnd := last }
    else { r with reported := r.reported ++ [(first, last)], previousChunkEnd := last }

/-- The range still open behind the loop. -/
def Ranges.finish (r : Ranges) : List (Nat × Nat) :=
  if r.multichunkRangeBegin ≠ 4294967295 then
    r.reported ++ [(r.multichunkRangeBegin, r.multichunkRangeEnd)]
  else r.reported

/-- The ranges `ForEachRange` hands to its callback, in order. -/
def forEachRange (chunkSize : Nat) (chunks : Chunks) : List (Nat × Nat) :=
  (chunks.toList.foldl (Ranges.next chunkSize) {}).finish

/-- A call that adds positions. -/
inductive Call
  | addItem (pos : Nat)
  | addItems (first last : Nat)
deriving DecidableEq, Repr

def call (chunkSize : Nat) (chunks : Chunks) : Call → Chunks
  | .addItem pos => addItem chunkSize chunks pos
  | .addItems first last => addItems chunkSize chunks first last

def calls (chunkSize : Nat) (cs : List Call) : Chunks := cs.foldl (call chunkSize) {}

/-! ### What one call does to a chunk -/

def Call.lower : Call → Nat
  | .addItem pos => pos
  | .addItems first _ => first

def Call.upper : Call → Nat
  | .addItem pos => pos
  | .addItems _ last => last

/-- The positions the tracker is made for; chunk indices have 16 bits. -/
structure Call.InRange (chunkSize : Nat) (c : Call) : Prop where
  ordered : c.lower ≤ c.upper
  position : c.upper < 2 ^ 31
  chunk : c.upper / chunkSize < 65536

section
variable (chunkSize : Nat)

def Call.firstChunk (c : Call) : Nat := c.lower / chunkSize

def Call.lastChunk (c : Call) : Nat := c.upper / chunkSize

/-- The last chunk `AddItems` changes: over three chunks and more it stops one early. -/
def Call.endChunk (c : Call) : Nat :=
  if c.lastChunk chunkSize ≤ c.firstChunk chunkSize + 1 then c.lastChunk chunkSize
  else c.lastChunk chunkSize - 1

/-- The call adds positions of chunk `k`. -/
def Call.Touches (k : Nat) (c : Call) : Prop :=
  c.firstChunk chunkSize ≤ k ∧ k ≤ c.lastChunk chunkSize

/-- The call changes the range kept for chunk `k`. -/
def Call.Marks (k : Nat) (c : Call) : Prop :=
  c.firstChunk chunkSize ≤ k ∧ k ≤ c.endChunk chunkSize

/-- The smallest position the call adds in chunk `k`. -/
def Call.lowerIn (k : Nat) (c : Call) : Nat :=
  if k = c.firstChunk chunkSize then c.lower % chunkSize else 0

/-- The largest position the call adds in chunk `k`. -/
def Call.upperIn (k : Nat) (c : Call) : Nat :=
  if k = c.lastChunk chunkSize then c.upper % chunkSize else chunkSize - 1

/-- The end the call has for chunk `k`. -/
def Call.endIn (k : Nat) (c : Call) : Nat :=
  if k = c.endChunk chunkSize then c.upper % chunkSize else chunkSize - 1

/-- What the call makes of the range kept for chunk `k`. -/
def Call.update (k : Nat) (c : Call) (chunk : Chunk) : Chunk :=
  if c.firstChunk chunkSize = c.lastChunk chunkSize then
    chunk.add (c.lowerIn chunkSize k) (c.endIn chunkSize k)
  else
    { first := min (c.lowerIn chunkSize k) chunk.first
      last := max (c.endIn chunkSize k) chunk.last }

end

variable {chunkSize : Nat}

theorem getElem?_modifyChunk (chunks : Chunks) (i k : Nat) (f : Chunk → Chunk) :
    (modifyChunk chunks i f)[k]? =
      if k = i then some (f (chunks[k]?.getD {})) else chunks[k]? := by
  rw [modifyChunk, Std.TreeMap.getElem?_alter]
  simp only [compare_eq_iff_eq]
  by_cases h : i = k
  · subst h
    rw [if_pos rfl]
  · rw [if_neg h, if_neg (Ne.symm h)]

/-- The loop fills the chunks up to the one before the last and stops there. -/
theorem fillChunks_spec (last : Nat) : ∀ (turns i : Nat) (chunks : Chunks), last ≤ i + turns →
    (fillChunks chunkSize last turns i chunks).1 = max i (last - 1) ∧
    ∀ k, (fillChunks chunkSize last turns i chunks).2[k]? =
      if i ≤ k ∧ k < last - 1 then some ⟨0, chunkSize - 1⟩ else chunks[k]? := by
  intro turns
  induction turns with
  | zero =>
    intro i chunks h
    refine ⟨by simp only [fillChunks]; omega, fun k => ?_⟩
    rw [if_neg (by omega)]
    rfl
  | succ turns ih =>
    intro i chunks h
    by_cases hi : i < last - 1
    · obtain ⟨hindex, hchunks⟩ := ih (i + 1)
        (modifyChunk chunks i fun _ => ⟨0, chunkSize - 1⟩) (by omega)
      simp only [fillChunks, if_pos hi]
      refine ⟨by rw [hindex]; omega, fun k => ?_⟩
      rw [hchunks, getElem?_modifyChunk]
      by_cases hk : k = i
      · rw [if_neg (by omega), if_pos hk, if_pos (by omega)]
      · rw [if_neg hk]
        have hiff : (i + 1 ≤ k ∧ k < last - 1) ↔ (i ≤ k ∧ k < last - 1) := by omega
        simp only [hiff]
    · simp only [fillChunks, if_neg hi]
      refine ⟨by omega, fun k => ?_⟩
      rw [if_neg (by omega)]

theorem call_eq_addItems (chunks : Chunks) (c : Call) :
    call chunkSize chunks c = addItems chunkSize chunks c.lower c.upper := by
  cases c with
  | addItem pos => simp only [call, addItem, addItems, Call.lower, Call.upper, if_pos]
  | addItems first last => rfl

theorem Call.InRange.firstChunk_le {c : Call} (hc : c.InRange chunkSize) :
    c.firstChunk chunkSize ≤ c.lastChunk chunkSize := Nat.div_le_div_right hc.ordered

theorem Call.InRange.chunkIndex {c : Call} (hc : c.InRange chunkSize) :
    chunkIndex chunkSize c.lower = c.firstChunk chunkSize ∧
    chunkIndex chunkSize c.upper = c.lastChunk chunkSize := by
  have hlast : c.lastChunk chunkSize < 65536 := hc.chunk
  have hfirst := hc.firstChunk_le
  exact ⟨Nat.mod_eq_of_lt (lt_of_le_of_lt hfirst hlast), Nat.mod_eq_of_lt hlast⟩

theorem getD_last_le {chunks : Chunks} {k : Nat}
    (hlast : ∀ chunk, chunks[k]? = some chunk → chunk.last ≤ chunkSize - 1) :
    (chunks[k]?.getD {}).last ≤ chunkSize - 1 := by
  cases hk : chunks[k]? with
  | none => exact Nat.zero_le _
  | some chunk => exact hlast chunk hk

theorem getElem?_call_one {c : Call} (hc : c.InRange chunkSize)
    (hone : c.firstChunk chunkSize = c.lastChunk chunkSize) (chunks : Chunks) (k : Nat) :
    (call chunkSize chunks c)[k]? =
      if k = c.firstChunk chunkSize then
        some (c.update chunkSize k (chunks[k]?.getD {})) else chunks[k]? := by
  have hend : c.endChunk chunkSize = c.firstChunk chunkSize := by
    rw [Call.endChunk, if_pos (by omega), hone]
  rw [call_eq_addItems]
  simp only [addItems, hc.chunkIndex.1, hc.chunkIndex.2, if_pos hone, getElem?_modifyChunk]
  by_cases hk : k = c.firstChunk chunkSize
  · rw [if_pos hk, if_pos hk, Call.update, if_pos hone, Call.lowerIn, if_pos hk, Call.endIn,
      if_pos (hk.trans hend.symm)]
  · rw [if_neg hk, if_neg hk]

theorem getElem?_call_many {c : Call} (hc : c.InRange chunkSize)
    (hmany : c.firstChunk chunkSize < c.lastChunk chunkSize) (chunks : Chunks) (k : Nat)
    (hlast : ∀ chunk, chunks[k]? = some chunk → chunk.last ≤ chunkSize - 1) :
    (call chunkSize chunks c)[k]? =
      if c.firstChunk chunkSize ≤ k ∧ k ≤ c.endChunk chunkSize then
        some (c.update chunkSize k (chunks[k]?.getD {})) else chunks[k]? := by
  have hold := getD_last_le hlast
  have hne : ¬c.firstChunk chunkSize = c.lastChunk chunkSize := by omega
  have hend : c.endChunk chunkSize =
      max (c.firstChunk chunkSize + 1) (c.lastChunk chunkSize - 1) := by
    unfold Call.endChunk
    split <;> omega
  rw [call_eq_addItems]
  simp only [addItems, hc.chunkIndex.1, hc.chunkIndex.2, if_neg hne]
  obtain ⟨hindex, hfill⟩ := fillChunks_spec (c.lastChunk chunkSize)
    (c.lastChunk chunkSize) (c.firstChunk chunkSize + 1)
    (modifyChunk chunks (c.firstChunk chunkSize) fun chunk =>
      { first := if c.lower % chunkSize < chunk.first then c.lower % chunkSize else chunk.first
        last := chunkSize - 1 }) (by omega)
  rw [hindex, ← hend, getElem?_modifyChunk, hfill, getElem?_modifyChunk, Call.update, if_neg hne]
  by_cases hkend : k = c.endChunk chunkSize
  · have hmiddle : ¬(c.firstChunk chunkSize + 1 ≤ k ∧ k < c.lastChunk chunkSize - 1) := by omega
    have hfirst : ¬k = c.firstChunk chunkSize := by omega
    have hmarks : c.firstChunk chunkSize ≤ k ∧ k ≤ c.endChunk chunkSize := by omega
    rw [if_pos hkend, if_neg hmiddle, if_neg hfirst, if_pos hmarks, Call.lowerIn, if_neg hfirst,
      Call.endIn, if_pos hkend, Nat.zero_min, Nat.max_def]
    congr 2
    split <;> split <;> omega
  · rw [if_neg hkend, Call.endIn, if_neg hkend, Nat.max_eq_left hold]
    by_cases hfirst : k = c.firstChunk chunkSize
    · have hmiddle : ¬(c.firstChunk chunkSize + 1 ≤ k ∧ k < c.lastChunk chunkSize - 1) := by omega
      have hmarks : c.firstChunk chunkSize ≤ k ∧ k ≤ c.endChunk chunkSize := by omega
      rw [if_neg hmiddle, if_pos hfirst, if_pos hmarks, Call.lowerIn, if_pos hfirst,
        Nat.min_def]
      congr 2
      split <;> split <;> omega
    · rw [if_neg hfirst, Call.lowerIn, if_neg hfirst, Nat.zero_min]
      have hiff : (c.firstChunk chunkSize + 1 ≤ k ∧ k < c.lastChunk chunkSize - 1) ↔
          (c.firstChunk chunkSize ≤ k ∧ k ≤ c.endChunk chunkSize) := by omega
      simp only [hiff]

/-- A call changes the chunks it marks, each by itself. -/
theorem getElem?_call {c : Call} (hc : c.InRange chunkSize) (chunks : Chunks) (k : Nat)
    (hlast : ∀ chunk, chunks[k]? = some chunk → chunk.last ≤ chunkSize - 1) :
    (c.Marks chunkSize k → (call chunkSize chunks c)[k]? =
      some (c.update chunkSize k (chunks[k]?.getD {}))) ∧
    (¬c.Marks chunkSize k → (call chunkSize chunks c)[k]? = chunks[k]?) := by
  by_cases hone : c.firstChunk chunkSize = c.lastChunk chunkSize
  · have hend : c.endChunk chunkSize = c.firstChunk chunkSize := by
      rw [Call.endChunk, if_pos (by omega), hone]
    rw [getElem?_call_one hc hone]
    exact ⟨fun h => if_pos (by unfold Call.Marks at h; omega),
      fun h => if_neg (by unfold Call.Marks at h; omega)⟩
  · have hle := hc.firstChunk_le
    rw [getElem?_call_many hc (by omega) chunks k hlast]
    exact ⟨fun h => if_pos h, fun h => if_neg h⟩

theorem calls_append (cl : List Call) (c : Call) :
    calls chunkSize (cl ++ [c]) = call chunkSize (calls chunkSize cl) c := by
  simp only [calls, List.foldl_append, List.foldl_cons, List.foldl_nil]

/-! ### The chunk kept after a list of calls -/

/-- A call of `cl` sets or raises the end kept for chunk `k` to at least `v`: a call inside
one chunk does so only when an earlier range starts no later. -/
def Recorded (chunkSize : Nat) (cl : List Call) (k v : Nat) : Prop :=
  ∃ before c after, cl = before ++ c :: after ∧ c.Marks chunkSize k ∧ c.endIn chunkSize k = v ∧
    (c.firstChunk chunkSize < c.lastChunk chunkSize ∨
      ∃ c' ∈ before, c'.Marks chunkSize k ∧ c'.lowerIn chunkSize k ≤ c.lowerIn chunkSize k)

theorem recorded_append {cl : List Call} {c : Call} {k v : Nat} :
    Recorded chunkSize (cl ++ [c]) k v ↔ Recorded chunkSize cl k v ∨
      (c.Marks chunkSize k ∧ c.endIn chunkSize k = v ∧
        (c.firstChunk chunkSize < c.lastChunk chunkSize ∨
          ∃ c' ∈ cl, c'.Marks chunkSize k ∧ c'.lowerIn chunkSize k ≤ c.lowerIn chunkSize k)) := by
  constructor
  · rintro ⟨before, d, after, heq, hd⟩
    rcases List.eq_nil_or_concat after with hafter | ⟨init, e, hafter⟩
    · subst hafter
      obtain ⟨hbefore, hlast⟩ := List.append_inj' heq rfl
      rw [List.cons.injEq] at hlast
      rw [← hbefore, ← hlast.1] at hd
      exact Or.inr hd
    · subst hafter
      have heq' : cl ++ [c] = (before ++ d :: init) ++ [e] := by
        rw [heq, List.concat_eq_append, List.append_assoc, List.cons_append]
      exact Or.inl ⟨before, d, init, (List.append_inj' heq' rfl).1, hd⟩
  · rintro (⟨before, d, after, heq, hd⟩ | hc)
    · exact ⟨before, d, after ++ [c], by rw [heq, List.append_assoc, List.cons_append], hd⟩
    · exact ⟨cl, c, [], rfl, hc⟩

/-- What the chunk kept at `k` says about the calls; a chunk not kept yet has the values of
a new one. -/
structure Keeps (chunkSize : Nat) (cl : List Call) (k : Nat) (kept : Option Chunk) : Prop where
  isSome : kept.isSome = true ↔ ∃ c ∈ cl, c.Marks chunkSize k
  firstLe : ∀ c ∈ cl, c.Marks chunkSize k → (kept.getD {}).first ≤ c.lowerIn chunkSize k
  firstEq : (kept = none ∧ (kept.getD {}).first = 65535) ∨
    ∃ c ∈ cl, c.Marks chunkSize k ∧ c.lowerIn chunkSize k = (kept.getD {}).first
  lastEq : (kept.getD {}).last = 0 ∨ Recorded chunkSize cl k (kept.getD {}).last
  lastGe : ∀ v, Recorded chunkSize cl k v → v ≤ (kept.getD {}).last

theorem Call.update_first (c : Call) (k : Nat) (chunk : Chunk) :
    (c.update chunkSize k chunk).first = min (c.lowerIn chunkSize k) chunk.first := by
  unfold Call.update Chunk.add
  split
  · split
    next hlow => exact (Nat.min_eq_left (Nat.le_of_lt hlow)).symm
    next hlow =>
      have hge : chunk.first ≤ c.lowerIn chunkSize k := by omega
      split <;> exact (Nat.min_eq_right hge).symm
  · rfl

theorem Call.update_last (c : Call) (k : Nat) (chunk : Chunk)
    (hle : c.firstChunk chunkSize ≤ c.lastChunk chunkSize) :
    ((c.firstChunk chunkSize < c.lastChunk chunkSize ∨ chunk.first ≤ c.lowerIn chunkSize k) →
      (c.update chunkSize k chunk).last = max (c.endIn chunkSize k) chunk.last) ∧
    (¬(c.firstChunk chunkSize < c.lastChunk chunkSize ∨ chunk.first ≤ c.lowerIn chunkSize k) →
      (c.update chunkSize k chunk).last = chunk.last) := by
  unfold Call.update Chunk.add
  refine ⟨fun h => ?_, fun h => ?_⟩
  · by_cases hone : c.firstChunk chunkSize = c.lastChunk chunkSize
    · have hlow : ¬c.lowerIn chunkSize k < chunk.first := by omega
      rw [if_pos hone, if_neg hlow]
      split
      next hgt => exact (Nat.max_eq_left (Nat.le_of_lt hgt)).symm
      next hgt => exact (Nat.max_eq_right (Nat.le_of_not_lt hgt)).symm
    · rw [if_neg hone]
  · have hone : c.firstChunk chunkSize = c.lastChunk chunkSize := by omega
    have hlow : c.lowerIn chunkSize k < chunk.first := by omega
    rw [if_pos hone, if_pos hlow]

theorem Call.lowerIn_lt (hsize : 1 ≤ chunkSize) (c : Call) (k : Nat) :
    c.lowerIn chunkSize k < chunkSize := by
  unfold Call.lowerIn
  split
  · exact Nat.mod_lt _ hsize
  · exact hsize

theorem Call.endIn_le (hsize : 1 ≤ chunkSize) (c : Call) (k : Nat) :
    c.endIn chunkSize k ≤ chunkSize - 1 := by
  have h : c.upper % chunkSize < chunkSize := Nat.mod_lt _ hsize
  unfold Call.endIn
  split <;> omega

theorem Recorded.le (hsize : 1 ≤ chunkSize) {cl : List Call} {k v : Nat}
    (h : Recorded chunkSize cl k v) : v ≤ chunkSize - 1 := by
  obtain ⟨_, c, _, _, _, rfl, _⟩ := h
  exact c.endIn_le hsize k

theorem Keeps.last_le (hsize : 1 ≤ chunkSize) {cl : List Call} {k : Nat} {kept : Option Chunk}
    (h : Keeps chunkSize cl k kept) : (kept.getD {}).last ≤ chunkSize - 1 := by
  rcases h.lastEq with h0 | hrec
  · omega
  · exact hrec.le hsize

theorem Keeps.append_other {cl : List Call} {k : Nat} {kept : Option Chunk}
    (h : Keeps chunkSize cl k kept) {c : Call} (hc : ¬c.Marks chunkSize k) :
    Keeps chunkSize (cl ++ [c]) k kept where
  isSome := by
    rw [h.isSome]
    simp only [List.mem_append, List.mem_singleton, or_and_right, exists_or, exists_eq_left, hc,
      or_false]
  firstLe d hd hmarks := by
    rcases List.mem_append.mp hd with hd | hd
    · exact h.firstLe d hd hmarks
    · rw [List.mem_singleton] at hd
      exact absurd (hd ▸ hmarks) hc
  firstEq := by
    refine h.firstEq.imp id ?_
    rintro ⟨d, hd, hmarks⟩
    exact ⟨d, List.mem_append_left _ hd, hmarks⟩
  lastEq := h.lastEq.imp id fun hrec => recorded_append.mpr (Or.inl hrec)
  lastGe v hv := by
    rcases recorded_append.mp hv with hv | ⟨hmarks, _⟩
    · exact h.lastGe v hv
    · exact absurd hmarks hc

theorem Keeps.first_le_iff {cl : List Call} {k : Nat} {kept : Option Chunk}
    (h : Keeps chunkSize cl k kept) {v : Nat} (hv : v < 65535) :
    (kept.getD {}).first ≤ v ↔
      ∃ c' ∈ cl, c'.Marks chunkSize k ∧ c'.lowerIn chunkSize k ≤ v := by
  constructor
  · intro hle
    rcases h.firstEq with ⟨_, hnew⟩ | ⟨c', hc', hmarks, heq⟩
    · omega
    · exact ⟨c', hc', hmarks, by rw [heq]; exact hle⟩
  · rintro ⟨c', hc', hmarks, hle⟩
    exact le_trans (h.firstLe c' hc' hmarks) hle

theorem Keeps.append_marks (hsize : 1 ≤ chunkSize) (hmax : chunkSize ≤ 65535) {cl : List Call}
    {k : Nat} {kept : Option Chunk} (h : Keeps chunkSize cl k kept) {c : Call}
    (hrange : c.InRange chunkSize) (hc : c.Marks chunkSize k) :
    Keeps chunkSize (cl ++ [c]) k (some (c.update chunkSize k (kept.getD {}))) := by
  have hlower : c.lowerIn chunkSize k < 65535 := lt_of_lt_of_le (c.lowerIn_lt hsize k) hmax
  have hmem : c ∈ cl ++ [c] := List.mem_append_right _ (List.mem_singleton_self c)
  refine ⟨⟨fun _ => ⟨c, hmem, hc⟩, fun _ => rfl⟩, ?_, Or.inr ?_, ?_, ?_⟩
  · intro d hd hmarks
    rw [Option.getD_some, Call.update_first]
    rcases List.mem_append.mp hd with hd | hd
    · exact le_trans (Nat.min_le_right _ _) (h.firstLe d hd hmarks)
    · rw [List.mem_singleton.mp hd]
      exact Nat.min_le_left _ _
  · rw [Option.getD_some, Call.update_first]
    by_cases hle : (kept.getD {}).first ≤ c.lowerIn chunkSize k
    · obtain ⟨c', hc', hmarks, heq⟩ : ∃ c' ∈ cl, c'.Marks chunkSize k ∧
          c'.lowerIn chunkSize k = (kept.getD {}).first := by
        rcases h.firstEq with ⟨_, hnew⟩ | hold
        · omega
        · exact hold
      exact ⟨c', List.mem_append_left _ hc', hmarks, by rw [heq, Nat.min_eq_right hle]⟩
    · exact ⟨c, hmem, hc, (Nat.min_eq_left (by omega)).symm⟩
  all_goals
    obtain ⟨hrecord, hskip⟩ := c.update_last k (kept.getD {}) hrange.firstChunk_le
    rw [h.first_le_iff hlower] at hrecord hskip
    rw [Option.getD_some]
    simp only [recorded_append, hc, true_and]
    by_cases hrec : c.firstChunk chunkSize < c.lastChunk chunkSize ∨
      ∃ c' ∈ cl, c'.Marks chunkSize k ∧ c'.lowerIn chunkSize k ≤ c.lowerIn chunkSize k
  · rw [hrecord hrec]
    rcases Nat.le_total (c.endIn chunkSize k) (kept.getD {}).last with hle | hle
    · rw [Nat.max_eq_right hle]
      exact h.lastEq.imp id Or.inl
    · rw [Nat.max_eq_left hle]
      exact Or.inr (Or.inr ⟨rfl, hrec⟩)
  · rw [hskip hrec]
    exact h.lastEq.imp id Or.inl
  · rw [hrecord hrec]
    rintro v (hv | ⟨rfl, _⟩)
    · exact le_trans (h.lastGe v hv) (Nat.le_max_right _ _)
    · exact Nat.le_max_left _ _
  · rw [hskip hrec]
    rintro v (hv | ⟨_, hrec'⟩)
    · exact h.lastGe v hv
    · exact absurd hrec' hrec

/-- The chunks after a list of calls, by induction on the calls from the last. -/
theorem calls_keeps (hsize : 1 ≤ chunkSize) (hmax : chunkSize ≤ 65535) (k : Nat)
    (cl : List Call) (hcl : ∀ c ∈ cl, c.InRange chunkSize) :
    Keeps chunkSize cl k (calls chunkSize cl)[k]? := by
  induction cl using List.reverseRecOn with
  | nil =>
    have hnone : (calls chunkSize [])[k]? = none := Std.TreeMap.getElem?_emptyc
    have hnot : ∀ v, ¬Recorded chunkSize [] k v := by
      rintro v ⟨before, c, after, heq, _⟩
      exact absurd heq (by simp)
    rw [hnone]
    exact ⟨by simp, by simp, Or.inl ⟨rfl, rfl⟩, Or.inl rfl, fun v hv => absurd hv (hnot v)⟩
  | append_singleton cl c ih =>
    have hold := ih fun d hd => hcl d (List.mem_append_left _ hd)
    have hrange := hcl c (List.mem_append_right _ (List.mem_singleton_self c))
    obtain ⟨hmarked, hother⟩ := getElem?_call hrange (calls chunkSize cl) k fun chunk hchunk => by
      have hle := hold.last_le hsize
      rwa [hchunk] at hle
    rw [calls_append]
    by_cases hc : c.Marks chunkSize k
    · rw [hmarked hc]
      exact hold.append_marks hsize hmax hrange hc
    · rw [hother hc]
      exact hold.append_other hc

end CosmicArchitect.Util.DirtyRangeTracker
