import CosmicArchitect.TKRZW.SpinSharedMutex
import CosmicArchitect.UniverseServer.CacheUpdates

/-!
# The cache is read as it was published (UniverseServer/UniverseServer_*.cpp)

`RetrieveUpdates` applies the updates that it has taken out under the exclusive lock of the cache;
the methods that get information share the lock, on any thread. The calls of the lock, its
operations, the steps of the updater and those of the threads that read interleave.
-/

namespace CosmicArchitect.UniverseServer
open Library Util TKRZW

variable {ι Info : Type} [DecidableEq ι]

/-- The cache with its updater and its mutex. No step reads `published`, the lists that
`PublishUpdates` has put into the swap buffer, `batch`, the one that `RetrieveUpdates` has taken out,
and `finished`, how many are applied. -/
structure SharedCache (ι Info : Type) where
  updater : CacheUpdater Info
  mutex : SpinSharedMutex ι := {}
  published : List (List (InfoUpdate Info)) := []
  batch : Option (List (InfoUpdate Info)) := none
  finished : Nat := 0

def Reader.isIdle : Reader Info → Bool
  | .idle => true
  | _ => false

namespace SharedCache

/-- `main` is the thread that calls `RetrieveUpdates`. -/
inductive Label (ι Info : Type)
  | updater (l : CacheUpdater.Label Info)
  | lock
  | unlock
  | lockShared (i : ι)
  | unlockShared (i : ι)
  | next (i : ι) (spurious : Bool)

/-- The writer is about to swap its list into the buffer. -/
def publishing (m : CacheUpdater Info) : CacheUpdater.Label Info → List (List (InfoUpdate Info))
  | .writer => if m.writer = some .swap then [m.updatesWrite] else []
  | _ => []

/-- The reader is about to swap the list in the buffer out. -/
def taking (m : CacheUpdater Info) : CacheUpdater.Label Info → Option (List (InfoUpdate Info))
  | .reader => if m.retriever = some .swap then some m.updatesSwap.value else none
  | _ => none

/-- In the loop of `RetrieveUpdates` the main thread owns the lock; the loop ends with `unlock`. -/
def MayApply (main : ι) (mutex : SpinSharedMutex ι) : Reader Info → Prop
  | .apply [] => False
  | .apply (_ :: _) => mutex.owns main = .exclusive
  | .idle | .retrieve .. => True

instance (main : ι) (mutex : SpinSharedMutex ι) (r : Reader Info) :
    Decidable (MayApply main mutex r) :=
  match r with
  | .apply [] => isFalse id
  | .apply (_ :: _) => inferInstanceAs (Decidable (mutex.owns main = .exclusive))
  | .idle | .retrieve .. => isTrue trivial

/-- The main thread calls `RetrieveUpdates` from outside of the methods that read. -/
def MayStep (main : ι) (m : SharedCache ι Info) : CacheUpdater.Label Info → Prop
  | .reader => MayApply main m.mutex m.updater.reader
  | .retrieveUpdates => m.mutex.places main = .outside
  | _ => True

instance (main : ι) (m : SharedCache ι Info) (l : CacheUpdater.Label Info) :
    Decidable (MayStep main m l) :=
  match l with
  | .reader => inferInstanceAs (Decidable (MayApply main m.mutex m.updater.reader))
  | .retrieveUpdates => inferInstanceAs (Decidable (m.mutex.places main = .outside))
  | .updateInfo .. | .updateInfoMap .. | .publishUpdates | .writer => isTrue trivial

def step (main : ι) (m : SharedCache ι Info) : Label ι Info → Option (SharedCache ι Info)
  | .updater l =>
    if MayStep main m l then
      (m.updater.step l).map fun updater =>
        { m with
          updater := updater
          published := m.published ++ publishing m.updater l
          batch := (taking m.updater l).or m.batch }
    else none
  | .lock =>
    match m.updater.reader with
    | .apply _ => (m.mutex.call main .lock).map fun mutex => { m with mutex := mutex }
    | _ => none
  | .unlock =>
    match m.updater.reader with
    | .apply [] => (m.mutex.call main .unlock).map fun mutex =>
      { m with
        mutex := mutex
        updater := { m.updater with reader := .idle }
        batch := none
        finished := m.finished + m.batch.toList.length }
    | _ => none
  | .lockShared i =>
    if i = main ∧ ¬ m.updater.reader.isIdle then none
    else (m.mutex.call i .lockShared).map fun mutex => { m with mutex := mutex }
  | .unlockShared i => (m.mutex.call i .unlockShared).map fun mutex => { m with mutex := mutex }
  | .next i spurious => (m.mutex.next i spurious).map fun mutex => { m with mutex := mutex }

/-- All runs over a cache. -/
def machine (main : ι) (cache : UniverseCache Info) :
    Machine (SharedCache ι Info) (Label ι Info) where
  init m := m = { updater := { cache := cache } }
  step := step main

/-- The ids are not `k_invalid_id`, and the count of the mutex does not wrap around. -/
def Guard (m : SharedCache ι Info) : Label ι Info → Prop
  | .updater l => CacheUpdater.NonzeroIds m.updater l
  | .next i spurious => SpinSharedMutex.NoWrap m.mutex (.next i spurious)
  | _ => True

/-! ### The batches -/

/-- The list in the swap buffer that is published and not yet taken out. -/
def pending (m : CacheUpdater Info) : List (List (InfoUpdate Info)) :=
  if (m.updatesSwap.ready = true ∨ m.writer = some .store) ∧ m.retriever ≠ some .store then
    [m.updatesSwap.value]
  else []

/-- What the main thread has in hand: a batch that it has not begun to apply before it looped. -/
def InHand (batch : Option (List (InfoUpdate Info))) (taken : List (InfoUpdate Info)) :
    Reader Info → Prop
  | .apply rest => batch.getD [] = taken ++ rest
  | .retrieve .store read => batch = some read ∧ taken = []
  | _ => batch = none ∧ taken = []

/-- The published lists are `whole`, which are applied, then the batch in hand, of which `taken` is
applied, and the one in the buffer. -/
structure Split (main : ι) (m : SharedCache ι Info) (whole : List (List (InfoUpdate Info)))
    (taken : List (InfoUpdate Info)) : Prop where
  finished : whole.length = m.finished
  published : m.published = whole ++ m.batch.toList ++ pending m.updater
  applied : m.updater.applied = whole.flatten ++ taken
  inHand : InHand m.batch taken m.updater.reader
  untouched : m.mutex.owns main ≠ .exclusive → taken = []

section
variable {main : ι} {cache : UniverseCache Info} {m m' : SharedCache ι Info}
  {whole : List (List (InfoUpdate Info))} {taken : List (InfoUpdate Info)}
  {u : CacheUpdater Info}

omit [DecidableEq ι] in
theorem pending_congr {u' : CacheUpdater Info}
    (hready : u'.updatesSwap.ready = true ∨ u'.writer = some .store ↔
      u.updatesSwap.ready = true ∨ u.writer = some .store)
    (hretriever : u'.retriever = some .store ↔ u.retriever = some .store)
    (hvalue : u'.updatesSwap.value = u.updatesSwap.value) : pending u' = pending u := by
  unfold pending
  rw [hvalue]
  exact if_congr (and_congr hready (not_congr hretriever)) rfl rfl

omit [DecidableEq ι] in
/-- The writer moves its list into the buffer when there is none. -/
theorem Split.writer (h : Split main m whole taken) (hc : CacheUpdater.Conserved cache m.updater)
    (hs : m.updater.writerNext = some u) :
    Split main { m with updater := u, published := m.published ++ publishing m.updater .writer }
      whole taken := by
  obtain ⟨place, hplace, hu⟩ := Option.map_eq_some_iff.mp hs
  have hturns := hc.turns
  rw [hplace] at hturns
  have happlied : u.applied = m.updater.applied := by rw [← hu]
  have hreader : u.reader = m.updater.reader := by rw [← hu]
  have hretriever : u.retriever = m.updater.retriever := by
    unfold CacheUpdater.retriever
    rw [hreader]
  refine ⟨h.finished, ?_, happlied.trans h.applied, ?_, h.untouched⟩
  · show m.published ++ publishing m.updater .writer = whole ++ m.batch.toList ++ pending u
    unfold publishing
    rw [h.published, hplace]
    cases place with
    | load =>
      rw [if_neg (by decide), List.append_nil]
      refine congrArg _ (pending_congr ?_ (by rw [hretriever]) (by rw [← hu]; rfl)).symm
      have hstore : u.writer ≠ some .store := by
        rw [← hu]
        dsimp only [SwapBuffer.publish, SwapBuffer.access]
        split <;> decide
      have hready : u.updatesSwap.ready = m.updater.updatesSwap.ready := by rw [← hu]; rfl
      rw [hready, hplace]
      exact or_congr Iff.rfl (iff_of_false hstore (by decide))
    | swap =>
      have hready : m.updater.updatesSwap.ready = false := hturns.publisher (Or.inl rfl)
      have hnone : pending m.updater = [] := by
        refine if_neg fun hc => ?_
        rw [hready, hplace] at hc
        exact absurd hc.1 (by decide)
      have hsome : pending u = [m.updater.updatesWrite] := by
        rw [← hu]
        refine if_pos ⟨Or.inr rfl, fun hstore => ?_⟩
        exact Bool.false_ne_true (hready.symm.trans (hturns.retriever (Or.inr hstore)))
      rw [if_pos rfl, hnone, List.append_nil, hsome]
    | store =>
      rw [if_neg (by decide), List.append_nil]
      refine congrArg _ (pending_congr ?_ (by rw [hretriever]) (by rw [← hu]; rfl)).symm
      rw [← hu]
      exact iff_of_true (Or.inl rfl) (Or.inr hplace)
  · rw [hreader]
    exact h.inHand

omit [DecidableEq ι] in
theorem Split.next (h : Split main m whole taken) {batch : Option (List (InfoUpdate Info))}
    {taken' : List (InfoUpdate Info)}
    (hpublished : m.batch.toList ++ pending m.updater = batch.toList ++ pending u)
    (happlied : u.applied = whole.flatten ++ taken') (hin : InHand batch taken' u.reader)
    (huntouched : m.mutex.owns main ≠ .exclusive → taken' = []) :
    Split main { m with updater := u, batch := batch } whole taken' := by
  refine ⟨h.finished, ?_, happlied, hin, huntouched⟩
  show m.published = whole ++ batch.toList ++ pending u
  rw [h.published, List.append_assoc, List.append_assoc, hpublished]

omit [DecidableEq ι] in
/-- The main thread takes a list out of the buffer, or none, and applies it under the lock. -/
theorem Split.reader (h : Split main m whole taken) (hc : CacheUpdater.Conserved cache m.updater)
    (hmay : MayStep main m .reader) (hs : m.updater.readerNext = some u) :
    ∃ taken', Split main { m with updater := u, batch := (taking m.updater .reader).or m.batch }
      whole taken' := by
  have hturns := hc.turns
  have hin := h.inHand
  have htaking : taking m.updater .reader =
    if m.updater.retriever = some .swap then some m.updater.updatesSwap.value else none := rfl
  unfold CacheUpdater.readerNext at hs
  unfold MayStep at hmay
  cases hreader : m.updater.reader with
  | idle =>
    rw [hreader] at hs
    cases hs
  | retrieve place read =>
    have hretriever : m.updater.retriever = some place := by rw [CacheUpdater.retriever, hreader]
    rw [hreader] at hs hin
    rw [hretriever] at hturns htaking
    have hu := Option.some.inj hs
    cases place with
    | load =>
      obtain ⟨hbatch, rfl⟩ := hin
      rw [htaking, if_neg (by decide), Option.none_or]
      have hempty : read = [] := by
        have hread := hc.read_empty .load (by decide) hretriever
        rw [CacheUpdater.updatesRead, hreader] at hread
        exact hread
      have hplace : u.reader =
          if m.updater.updatesSwap.ready = true then .retrieve .swap read else .apply read := by
        rw [← hu]
        dsimp only [SwapBuffer.retrieve, SwapBuffer.access]
        by_cases hready : m.updater.updatesSwap.ready = true
        · rw [if_pos hready, if_pos hready]
        · rw [if_neg hready, if_neg hready]
      have hnext : u.retriever ≠ some .store ∧ InHand m.batch [] u.reader := by
        rw [CacheUpdater.retriever, hplace, hbatch, hempty]
        by_cases hready : m.updater.updatesSwap.ready = true
        · rw [if_pos hready]
          exact ⟨(fun hc => by cases hc), rfl, rfl⟩
        · rw [if_neg hready]
          exact ⟨(fun hc => by cases hc), rfl⟩
      refine ⟨[], h.next (congrArg _ (pending_congr ?_ ?_ ?_).symm) ?_ hnext.2 fun _ => rfl⟩
      · rw [← hu]
        rfl
      · rw [hretriever]
        exact iff_of_false hnext.1 (by decide)
      · rw [← hu]
        rfl
      · rw [← hu]
        exact h.applied
    | swap =>
      obtain ⟨hbatch, rfl⟩ := hin
      have hready := hturns.retriever (Or.inl rfl)
      have hpending : pending m.updater = [m.updater.updatesSwap.value] :=
        if_pos ⟨Or.inl hready, by rw [hretriever]; decide⟩
      have hnone : pending u = [] := by
        rw [← hu]
        exact if_neg fun hc => hc.2 rfl
      rw [htaking, if_pos rfl, Option.some_or]
      refine ⟨[], h.next ?_ ?_ ?_ fun _ => rfl⟩
      · rw [hbatch, hpending, hnone]
        rfl
      · rw [← hu]
        exact h.applied
      · rw [← hu]
        exact ⟨rfl, rfl⟩
    | store =>
      obtain ⟨hbatch, rfl⟩ := hin
      have hready := hturns.retriever (Or.inr rfl)
      have hnone : pending m.updater = [] := if_neg fun hc => hc.2 hretriever
      have hnone' : pending u = [] := by
        rw [← hu]
        refine if_neg ?_
        rintro ⟨hor, -⟩
        rcases hor with hc | hwriter
        · cases hc
        · exact Bool.false_ne_true ((hturns.publisher (Or.inr hwriter)).symm.trans hready)
      rw [htaking, if_neg (by decide), Option.none_or]
      refine ⟨[], h.next ?_ ?_ ?_ fun _ => rfl⟩
      · rw [hnone, hnone']
      · rw [← hu]
        exact h.applied
      · rw [← hu, hbatch]
        rfl
  | apply rest =>
    have hretriever : m.updater.retriever = none := by rw [CacheUpdater.retriever, hreader]
    rw [hretriever] at htaking
    rw [htaking, if_neg (by decide), Option.none_or]
    cases rest with
    | nil =>
      rw [hreader] at hmay
      exact hmay.elim
    | cons update rest =>
      rw [hreader] at hs hmay hin
      obtain ⟨c, -, hu⟩ := Option.map_eq_some_iff.mp hs
      refine ⟨taken ++ [update], h.next (congrArg _ (pending_congr ?_ ?_ ?_).symm) ?_ ?_
        fun hn => absurd hmay hn⟩
      · rw [← hu]
      · rw [hretriever, ← hu]
        rfl
      · rw [← hu]
      · rw [← hu]
        show m.updater.applied ++ [update] = _
        rw [h.applied, List.append_assoc]
      · rw [← hu]
        show m.batch.getD [] = taken ++ [update] ++ rest
        rw [List.append_assoc]
        exact hin

omit [DecidableEq ι] in
/-- Whoever calls `AddInfoUpdate`, `PublishUpdates` or `RetrieveUpdates` moves no list yet. -/
theorem Split.updater (h : Split main m whole taken) (hc : CacheUpdater.Conserved cache m.updater)
    {l : CacheUpdater.Label Info} (hmay : MayStep main m l) (hs : m.updater.step l = some u) :
    ∃ taken', Split main { m with
      updater := u
      published := m.published ++ publishing m.updater l
      batch := (taking m.updater l).or m.batch } whole taken' := by
  have hsame : ∀ u : CacheUpdater Info, pending u = pending m.updater →
      u.applied = m.updater.applied → InHand m.batch taken u.reader →
        Split main { m with updater := u, published := m.published ++ [] } whole taken := by
    intro u hpending happlied hin
    rw [List.append_nil]
    exact h.next (congrArg _ hpending.symm) (happlied.trans h.applied) hin h.untouched
  cases l with
  | updateInfo type info =>
    obtain ⟨-, heq⟩ := Option.ite_none_right_eq_some.mp hs
    cases heq
    refine ⟨taken, hsame _ ?_ ?_ ?_⟩
    all_goals cases infoUpdate type info
    all_goals first | rfl | exact h.inHand
  | updateInfoMap type id info =>
    obtain ⟨-, heq⟩ := Option.ite_none_right_eq_some.mp hs
    cases heq
    refine ⟨taken, hsame _ ?_ ?_ ?_⟩
    all_goals cases infoMapUpdate type id info
    all_goals first | rfl | exact h.inHand
  | publishUpdates =>
    obtain ⟨hidle, heq⟩ := Option.ite_none_right_eq_some.mp hs
    cases heq
    refine ⟨taken, hsame _ (pending_congr ?_ Iff.rfl rfl) rfl h.inHand⟩
    rw [hidle]
    exact or_congr Iff.rfl (iff_of_false (fun hc => by cases hc) (by decide))
  | retrieveUpdates =>
    have hin := h.inHand
    unfold CacheUpdater.step at hs
    dsimp only at hs
    split at hs
    · next hreader =>
      cases hs
      rw [hreader] at hin
      refine ⟨taken, hsame _ (pending_congr Iff.rfl ?_ rfl) rfl hin⟩
      rw [CacheUpdater.retriever, CacheUpdater.retriever, hreader]
      exact iff_of_false (fun hc => by cases hc) fun hc => by cases hc
    · cases hs
  | writer => exact ⟨taken, h.writer hc hs⟩
  | reader =>
    obtain ⟨taken', h'⟩ := h.reader hc hmay hs
    refine ⟨taken', ?_⟩
    show Split main { m with updater := u, published := m.published ++ [], batch := _ } whole taken'
    rw [List.append_nil]
    exact h'

omit [DecidableEq ι] in
/-- The loop is over, and so is the batch. -/
theorem Split.unlock (h : Split main m whole taken) (hreader : m.updater.reader = .apply [])
    (mutex : SpinSharedMutex ι) :
    Split main { m with
      mutex := mutex
      updater := { m.updater with reader := .idle }
      batch := none
      finished := m.finished + m.batch.toList.length } (whole ++ m.batch.toList) [] := by
  have hin := h.inHand
  rw [hreader] at hin
  have hbatch : m.batch.toList.flatten = taken := by
    rw [← List.append_nil taken, ← show m.batch.getD [] = taken ++ [] from hin]
    cases m.batch with
    | none => rfl
    | some batch => exact List.append_nil batch
  have hpending : pending { m.updater with reader := .idle } = pending m.updater := by
    refine pending_congr Iff.rfl ?_ rfl
    rw [CacheUpdater.retriever, CacheUpdater.retriever, hreader]
  refine ⟨?_, ?_, ?_, ⟨rfl, rfl⟩, fun _ => rfl⟩
  · rw [List.length_append, h.finished]
  · show m.published = whole ++ m.batch.toList ++ [] ++ pending { m.updater with reader := .idle }
    rw [List.append_nil, hpending]
    exact h.published
  · show m.updater.applied = (whole ++ m.batch.toList).flatten ++ []
    rw [h.applied, List.flatten_append, hbatch, List.append_nil]

omit [DecidableEq ι] in
theorem Split.mutex (h : Split main m whole taken) {mutex : SpinSharedMutex ι}
    (hkeep : m.mutex.owns main = .exclusive → mutex.owns main = .exclusive) :
    Split main { m with mutex := mutex } whole taken :=
  ⟨h.finished, h.published, h.applied, h.inHand, fun hn => h.untouched fun hex => hn (hkeep hex)⟩

end

/-! ### What is read -/

/-- The getters of the server find an id in the map that they are named for, or return an empty
dictionary. -/
def findInfo (cache : UniverseCache Info) (empty : Info) (member : InfoMapMember) (id : ID) : Info :=
  (cache.infoMap member id).getD empty

/-- The value of the last of the updates for a target. -/
def lastValue (target : Target) (id : ID) (updates : List (InfoUpdate Info)) : Option Info :=
  (updates.reverse.find? fun update => update.target = target ∧ update.key = id).map (·.value)

theorem lastValue_append (target : Target) (id : ID) (updates : List (InfoUpdate Info))
    (update : InfoUpdate Info) : lastValue target id (updates ++ [update]) =
      if update.target = target ∧ update.key = id then some update.value
      else lastValue target id updates := by
  unfold lastValue
  rw [List.reverse_append, List.reverse_singleton, List.singleton_append, List.find?_cons]
  by_cases hmatch : update.target = target ∧ update.key = id
  · rw [if_pos hmatch, decide_eq_true hmatch]
    rfl
  · rw [if_neg hmatch, decide_eq_false hmatch]

/-- A cache that the updates were applied to holds the last value for each target. -/
structure Holds (cache : UniverseCache Info) (updates : List (InfoUpdate Info))
    (out : UniverseCache Info) : Prop where
  info : ∀ member,
    out.info member = (lastValue (.info member) invalidId updates).getD (cache.info member)
  infoMap : ∀ member id,
    out.infoMap member id = (lastValue (.infoMap member) id updates).or (cache.infoMap member id)

theorem Holds.apply {cache out out' : UniverseCache Info} {updates : List (InfoUpdate Info)}
    {update : InfoUpdate Info} (h : Holds cache updates out) (happly : update.apply out = some out') :
    Holds cache (updates ++ [update]) out' := by
  obtain ⟨target, key, value⟩ := update
  unfold InfoUpdate.apply at happly
  cases target with
  | info written =>
    obtain ⟨rfl, heq⟩ : key = invalidId ∧ _ = some out' := by
      by_cases hkey : key = invalidId
      · exact ⟨hkey, (if_pos hkey).symm.trans happly⟩
      · cases (if_neg hkey).symm.trans happly
    cases heq
    refine ⟨fun member => ?_, fun member id => ?_⟩
    · rw [lastValue_append]
      show Function.update out.info written value member = _
      by_cases hmember : written = member
      · subst hmember
        rw [Function.update_self, if_pos ⟨rfl, rfl⟩]
        rfl
      · rw [Function.update_of_ne (Ne.symm hmember),
          if_neg fun hc => hmember (Target.info.inj hc.1)]
        exact h.info member
    · rw [lastValue_append, if_neg fun hc => by cases hc.1]
      exact h.infoMap member id
  | infoMap written =>
    obtain ⟨hkey, heq⟩ : key ≠ invalidId ∧ _ = some out' := by
      by_cases hkey : key = invalidId
      · cases (if_pos hkey).symm.trans happly
      · exact ⟨hkey, (if_neg hkey).symm.trans happly⟩
    cases heq
    refine ⟨fun member => ?_, fun member id => ?_⟩
    · rw [lastValue_append, if_neg fun hc => by cases hc.1]
      exact h.info member
    · rw [lastValue_append]
      show Function.update out.infoMap written _ member id = _
      by_cases hmember : written = member
      · subst hmember
        rw [Function.update_self]
        by_cases hid : key = id
        · subst hid
          rw [Function.update_self, if_pos ⟨rfl, rfl⟩]
          rfl
        · rw [Function.update_of_ne (Ne.symm hid), if_neg fun hc => hid hc.2]
          exact h.infoMap written id
      · rw [Function.update_of_ne (Ne.symm hmember),
          if_neg fun hc => hmember (Target.infoMap.inj hc.1)]
        exact h.infoMap member id

theorem holds_of_foldlM {cache out : UniverseCache Info} {updates : List (InfoUpdate Info)}
    (h : updates.foldlM InfoUpdate.apply cache = some out) : Holds cache updates out := by
  induction updates using List.reverseRecOn generalizing out with
  | nil =>
    cases Option.some.inj h
    exact ⟨fun _ => rfl, fun _ _ => rfl⟩
  | append_singleton updates update ih =>
    rw [List.foldlM_append] at h
    obtain ⟨mid, hmid, hupdate⟩ := Option.bind_eq_some_iff.mp h
    refine (ih hmid).apply ?_
    rw [List.foldlM_cons] at hupdate
    obtain ⟨out', hout, hnil⟩ := Option.bind_eq_some_iff.mp hupdate
    cases Option.some.inj hnil
    exact hout

/-! ### All runs -/

section
variable [Fintype ι] {main : ι} {cache : UniverseCache Info} {m m' : SharedCache ι Info}
  {whole : List (List (InfoUpdate Info))} {taken : List (InfoUpdate Info)}

structure Viewed (main : ι) (cache : UniverseCache Info) (m : SharedCache ι Info) : Prop where
  exact : SpinSharedMutex.Exact m.mutex
  conserved : CacheUpdater.Conserved cache m.updater
  split : ∃ whole taken, Split main m whole taken

omit [Fintype ι] in
/-- Only `unlock` and `downgrade` end an exclusive ownership. -/
theorem exclusive_kept {mutex mutex' : SpinSharedMutex ι} {l : SpinSharedMutex.Label ι}
    (hs : mutex.step l = some mutex') (hunlock : l ≠ .call main .unlock)
    (hdowngrade : l ≠ .call main .downgrade) (h : mutex.owns main = .exclusive) :
    mutex'.owns main = .exclusive := by
  obtain ⟨place, hplaces⟩ := SpinSharedMutex.step_places hs
  by_cases hmain : l.thread = main
  · have hplace : mutex.places main = .exclusive := by
      unfold SpinSharedMutex.owns at h
      cases hp : mutex.places main <;> rw [hp] at h <;> first | rfl | cases h
    cases l with
    | call i method =>
      cases show i = main from hmain
      cases method
      case unlock => exact absurd rfl hunlock
      case downgrade => exact absurd rfl hdowngrade
      all_goals
        obtain ⟨hp, -⟩ := Option.ite_none_right_eq_some.mp hs
        cases hplace.symm.trans hp
    | next i spurious =>
      cases show i = main from hmain
      replace hs : mutex.next main spurious = some mutex' := hs
      unfold SpinSharedMutex.next at hs
      rw [hplace] at hs
      cases hs
  · unfold SpinSharedMutex.owns
    rw [hplaces, Function.update_of_ne (Ne.symm hmain)]
    exact h

theorem Viewed.mutex (h : Viewed main cache m) {mutex : SpinSharedMutex ι}
    {l : SpinSharedMutex.Label ι} (hs : m.mutex.step l = some mutex)
    (hexact : SpinSharedMutex.Exact mutex) (hunlock : l ≠ .call main .unlock)
    (hdowngrade : l ≠ .call main .downgrade) : Viewed main cache { m with mutex := mutex } := by
  obtain ⟨whole, taken, hsplit⟩ := h.split
  exact ⟨hexact, h.conserved, whole, taken,
    hsplit.mutex (exclusive_kept hs hunlock hdowngrade)⟩

theorem Viewed.step (hthreads : Fintype.card ι < 2147483647) (h : Viewed main cache m)
    {l : Label ι Info} (hguard : Guard m l)
    (hs : SharedCache.step main m l = some m') :
    Viewed main cache m' := by
  obtain ⟨whole, taken, hsplit⟩ := h.split
  cases l with
  | updater l =>
    obtain ⟨hmay, heq⟩ := Option.ite_none_right_eq_some.mp hs
    obtain ⟨u, hu, rfl⟩ := Option.map_eq_some_iff.mp heq
    obtain ⟨taken', hsplit'⟩ := hsplit.updater h.conserved hmay hu
    exact ⟨h.exact, CacheUpdater.conserved_step h.conserved hguard hu, whole, taken', hsplit'⟩
  | lock =>
    unfold SharedCache.step at hs
    dsimp only at hs
    split at hs
    · obtain ⟨mutex, hmutex, rfl⟩ := Option.map_eq_some_iff.mp hs
      exact h.mutex (l := .call main .lock) hmutex (h.exact.call hmutex) (fun hc => by cases hc)
        fun hc => by cases hc
    · cases hs
  | unlock =>
    unfold SharedCache.step at hs
    dsimp only at hs
    split at hs
    · next hreader =>
      obtain ⟨mutex, hmutex, rfl⟩ := Option.map_eq_some_iff.mp hs
      refine ⟨h.exact.call hmutex, CacheUpdater.conserved_reader h.conserved ?_, _, _,
        hsplit.unlock hreader mutex⟩
      unfold CacheUpdater.readerNext
      rw [hreader]
    · cases hs
  | lockShared i =>
    obtain ⟨-, heq⟩ := Option.ite_none_left_eq_some.mp hs
    obtain ⟨mutex, hmutex, rfl⟩ := Option.map_eq_some_iff.mp heq
    exact h.mutex (l := .call i .lockShared) hmutex (h.exact.call hmutex) (fun hc => by cases hc)
      fun hc => by cases hc
  | unlockShared i =>
    obtain ⟨mutex, hmutex, rfl⟩ := Option.map_eq_some_iff.mp hs
    exact h.mutex (l := .call i .unlockShared) hmutex (h.exact.call hmutex)
      (fun hc => by cases hc) fun hc => by cases hc
  | next i spurious =>
    obtain ⟨mutex, hmutex, rfl⟩ := Option.map_eq_some_iff.mp hs
    exact h.mutex (l := .next i spurious) hmutex (h.exact.next hthreads hguard hmutex)
      (fun hc => by cases hc) fun hc => by cases hc

theorem viewed_init : Viewed main cache ({ updater := { cache := cache } } : SharedCache ι Info) where
  exact := SpinSharedMutex.exact_init
  conserved := CacheUpdater.conserved_init
  split := ⟨[], [], rfl, rfl, rfl, ⟨rfl, rfl⟩, fun _ => rfl⟩

theorem viewed_of_reach (hthreads : Fintype.card ι < 2147483647)
    (h : (machine main cache).Reach Guard m) : Viewed main cache m := by
  refine h.invariant (I := Viewed main cache) ?_ ?_
  · intro m hinit
    cases hinit
    exact viewed_init
  · intro m l m' _ hm hguard hs
    exact hm.step hthreads hguard hs

omit [DecidableEq ι] [Fintype ι] in
/-- Every update that was issued is in a published list or in the list of the writer. -/
theorem Split.issued (h : Split main m whole taken) (hc : CacheUpdater.Conserved cache m.updater) :
    m.updater.issued = m.published.flatten ++ m.updater.updatesWrite := by
  have hbatch : taken ++ m.updater.updatesRead = m.batch.toList.flatten := by
    have hin := h.inHand
    have hempty := hc.read_empty
    unfold CacheUpdater.retriever CacheUpdater.updatesRead at hempty
    unfold CacheUpdater.updatesRead
    cases hreader : m.updater.reader with
    | idle =>
      rw [hreader] at hin
      rw [hin.1, hin.2]
      rfl
    | retrieve place read =>
      rw [hreader] at hin hempty
      cases place with
      | store =>
        rw [hin.1, hin.2]
        exact (List.append_nil read).symm
      | load | swap =>
        have hread : read = [] := hempty _ (by decide) rfl
        rw [hin.1, hin.2, hread]
        rfl
    | apply rest =>
      rw [hreader] at hin
      rw [← show m.batch.getD [] = taken ++ rest from hin]
      cases m.batch with
      | none => rfl
      | some batch => exact (List.append_nil batch).symm
  have hpending : (pending m.updater).flatten = m.updater.updatesSwap.value := by
    unfold pending
    by_cases hfull : (m.updater.updatesSwap.ready = true ∨ m.updater.writer = some .store) ∧
        m.updater.retriever ≠ some .store
    · rw [if_pos hfull]
      exact List.append_nil _
    · rw [if_neg hfull]
      by_cases hstore : m.updater.retriever = some .store
      · exact (hc.taken hstore).symm
      · obtain ⟨hready, hwriter⟩ := not_or.mp fun hor => hfull ⟨hor, hstore⟩
        exact (hc.value_empty (Bool.eq_false_iff.mpr hready) hwriter).symm
  rw [hc.split, h.applied, h.published, List.append_assoc whole.flatten, hbatch,
    List.flatten_append, List.flatten_append, hpending]

/-- What a thread that shares the lock reads is a number of published lists, all of each, and no
step changes it before the thread releases the lock. -/
structure Published (main : ι) (cache : UniverseCache Info) (m : SharedCache ι Info) : Prop where
  issued : m.updater.issued = m.published.flatten ++ m.updater.updatesWrite
  finished : m.finished ≤ m.published.length
  info : ∀ i, m.mutex.owns i = .shared → ∀ member, m.updater.cache.info member =
    (lastValue (.info member) invalidId (m.published.take m.finished).flatten).getD
      (cache.info member)
  infoMap : ∀ i, m.mutex.owns i = .shared → ∀ empty member id,
    findInfo m.updater.cache empty member id =
      (lastValue (.infoMap member) id (m.published.take m.finished).flatten).getD
        (findInfo cache empty member id)
  stays : ∀ i, m.mutex.owns i = .shared → ∀ l m', (machine main cache).step m l = some m' →
    m'.updater.cache = m.updater.cache

theorem Viewed.not_exclusive {i : ι} (h : Viewed main cache m) (hi : m.mutex.owns i = .shared) :
    m.mutex.owns main ≠ .exclusive := by
  intro hex
  by_cases heq : i = main
  · cases (heq ▸ hi).symm.trans hex
  · cases (h.exact.excludes main i hex heq).symm.trans hi

theorem Viewed.stays {i : ι} (h : Viewed main cache m) (hi : m.mutex.owns i = .shared)
    {l : Label ι Info} (hs : SharedCache.step main m l = some m') :
    m'.updater.cache = m.updater.cache := by
  have hmain := h.not_exclusive hi
  cases l with
  | updater l =>
    obtain ⟨hmay, heq⟩ := Option.ite_none_right_eq_some.mp hs
    obtain ⟨u, hu, rfl⟩ := Option.map_eq_some_iff.mp heq
    show u.cache = m.updater.cache
    cases l with
    | updateInfo type info =>
      obtain ⟨-, heq⟩ := Option.ite_none_right_eq_some.mp hu
      cases heq
      cases infoUpdate type info <;> rfl
    | updateInfoMap type id info =>
      obtain ⟨-, heq⟩ := Option.ite_none_right_eq_some.mp hu
      cases heq
      cases infoMapUpdate type id info <;> rfl
    | publishUpdates =>
      obtain ⟨-, heq⟩ := Option.ite_none_right_eq_some.mp hu
      cases heq
      rfl
    | retrieveUpdates =>
      unfold CacheUpdater.step at hu
      dsimp only at hu
      split at hu <;> cases hu
      rfl
    | writer =>
      obtain ⟨place, -, rfl⟩ := Option.map_eq_some_iff.mp hu
      rfl
    | reader =>
      replace hu : m.updater.readerNext = some u := hu
      unfold CacheUpdater.readerNext at hu
      unfold MayStep at hmay
      cases hreader : m.updater.reader with
      | idle =>
        rw [hreader] at hu
        cases hu
      | retrieve place read =>
        rw [hreader] at hu
        cases hu
        rfl
      | apply rest =>
        rw [hreader] at hmay
        cases rest with
        | nil => exact hmay.elim
        | cons update rest => exact absurd hmay hmain
  | lock | unlock =>
    unfold SharedCache.step at hs
    dsimp only at hs
    split at hs
    · obtain ⟨mutex, -, rfl⟩ := Option.map_eq_some_iff.mp hs
      rfl
    · cases hs
  | lockShared i =>
    obtain ⟨-, heq⟩ := Option.ite_none_left_eq_some.mp hs
    obtain ⟨mutex, -, rfl⟩ := Option.map_eq_some_iff.mp heq
    rfl
  | unlockShared i | next i spurious =>
    obtain ⟨mutex, -, rfl⟩ := Option.map_eq_some_iff.mp hs
    rfl

/-- While somebody shares the lock no list is half applied. -/
theorem Viewed.holds {i : ι} (h : Viewed main cache m) (hi : m.mutex.owns i = .shared) :
    Holds cache (m.published.take m.finished).flatten m.updater.cache := by
  obtain ⟨whole, taken, hsplit⟩ := h.split
  have htaken : taken = [] := hsplit.untouched (h.not_exclusive hi)
  have hwhole : m.published.take m.finished = whole := by
    rw [hsplit.published, ← hsplit.finished, List.append_assoc, List.take_left]
  rw [hwhole]
  refine holds_of_foldlM ?_
  rw [← h.conserved.fold, hsplit.applied, htaken, List.append_nil]

/-- Whatever the order of the steps of the thread that publishes, the main thread and those that read:
a getter finds what the last update in the published lists says that the main thread has finished,
never one of a list that it is in the midst of. -/
theorem cache_reads_published (hthreads : Fintype.card ι < 2147483647)
    (h : (machine main cache).Reach Guard m) : Published main cache m := by
  have hv := viewed_of_reach hthreads h
  obtain ⟨whole, taken, hsplit⟩ := hv.split
  refine ⟨hsplit.issued hv.conserved, ?_, fun i hi => (hv.holds hi).info,
    fun i hi empty member id => ?_, fun i hi l m' hs => hv.stays hi hs⟩
  · rw [hsplit.published, ← hsplit.finished, List.append_assoc, List.length_append]
    exact Nat.le_add_right ..
  · unfold findInfo
    rw [(hv.holds hi).infoMap member id]
    cases lastValue (.infoMap member) id (m.published.take m.finished).flatten <;> rfl

end

instance (m : SharedCache ι Info) (l : Label ι Info) : Decidable (Guard m l) :=
  match l with
  | .updater l => inferInstanceAs (Decidable (CacheUpdater.NonzeroIds m.updater l))
  | .next i spurious => inferInstanceAs (Decidable (SpinSharedMutex.NoWrap m.mutex (.next i spurious)))
  | .lock | .unlock | .lockShared _ | .unlockShared _ => isTrue trivial

/- Two updates of one entity are published and a third is not yet. The second thread reads after the
   main thread, `false`, has applied both, having failed to while it applied them. -/
def readRun : List (Label Bool Nat) :=
  [.updater (.updateInfoMap .entity 7 1), .updater (.updateInfo .universe 5),
    .updater (.updateInfoMap .entity 7 2), .updater .publishUpdates, .updater .writer,
    .updater .writer, .updater .writer, .updater (.updateInfoMap .entity 7 3),
    .updater .retrieveUpdates, .updater .reader, .updater .reader, .updater .reader, .lock,
    .next false false, .lockShared true, .updater .reader, .next true false, .updater .reader,
    .next true false, .next true false, .updater .reader, .unlock, .next true false]

theorem cache_reads_published_readRun : ∃ m : SharedCache Bool Nat,
    (machine false CacheUpdater.emptyCache).exec { updater := { cache := CacheUpdater.emptyCache } }
      readRun = some m ∧ m.mutex.owns true = .shared ∧
      findInfo m.updater.cache 0 .entityInfoMap 7 = 2 ∧
      Published false CacheUpdater.emptyCache m := by
  have hfollows : (machine false CacheUpdater.emptyCache).Follows Guard
      { updater := { cache := CacheUpdater.emptyCache } } readRun := by decide +kernel
  refine ⟨_, rfl, by decide, by decide, cache_reads_published (by decide) ?_⟩
  exact Machine.Reach.exec (.init rfl) hfollows rfl

end SharedCache
end CosmicArchitect.UniverseServer
