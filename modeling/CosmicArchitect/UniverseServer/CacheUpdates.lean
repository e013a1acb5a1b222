import CosmicArchitect.UniverseServer.UniverseCache

/-!
# No update of the cache is lost

An update moves from `m_updates_write` through `m_value` and `updates_read` to the cache, and
each of these is empty before it takes the updates of the one before it.
-/

namespace CosmicArchitect.UniverseServer
namespace CacheUpdater
open Library Util SwapBuffer

variable {Info : Type} {m m' : CacheUpdater Info} {l : Label Info}

/-- `UpdateInfoMap` is called with ids other than `k_invalid_id`. -/
def NonzeroIds (_ : CacheUpdater Info) : Label Info → Prop
  | .updateInfoMap _ id _ => id ≠ invalidId
  | _ => True

instance (m : CacheUpdater Info) (l : Label Info) : Decidable (NonzeroIds m l) := by
  cases l <;> unfold NonzeroIds <;> infer_instance

/-- The place of the reader in `Retrieve`. -/
def retriever (m : CacheUpdater Info) : Option Place :=
  match m.reader with
  | .retrieve place _ => some place
  | _ => none

/-- The updates that the reader has taken out and not yet applied. -/
def updatesRead (m : CacheUpdater Info) : List (InfoUpdate Info) :=
  match m.reader with
  | .idle => []
  | .retrieve _ updatesRead => updatesRead
  | .apply updatesRead => updatesRead

/-- The updates in `m_value`, once they are ready or about to be made ready. -/
def updatesReady (m : CacheUpdater Info) : List (InfoUpdate Info) :=
  if m.updatesSwap.ready = true ∨ m.writer = some .store then m.updatesSwap.value else []


/-- The key selects the member of the union that was written. -/
def Selects (update : InfoUpdate Info) : Prop :=
  match update.target with
  | .info _ => update.key = invalidId
  | .infoMap _ => update.key ≠ invalidId

theorem apply_of_selects {update : InfoUpdate Info} (h : Selects update)
    (out : UniverseCache Info) : ∃ out', update.apply out = some out' := by
  obtain ⟨target, key, value⟩ := update
  cases target with
  | info member => exact ⟨_, if_pos h⟩
  | infoMap member => exact ⟨_, if_neg h⟩

theorem selects_infoUpdate {type : CacheType} {info : Info} {update : InfoUpdate Info}
    (h : infoUpdate type info = some update) : Selects update := by
  obtain ⟨member, _, rfl⟩ := Option.map_eq_some_iff.mp h
  rfl

theorem selects_infoMapUpdate {type : CacheType} {id : ID} {info : Info}
    {update : InfoUpdate Info} (hid : id ≠ invalidId)
    (h : infoMapUpdate type id info = some update) : Selects update := by
  obtain ⟨member, _, rfl⟩ := Option.map_eq_some_iff.mp h
  exact hid

/-- Where the issued updates are, and which of the lists are empty. -/
structure Conserved (cache : UniverseCache Info) (m : CacheUpdater Info) : Prop where
  turns : Turns m.updatesSwap.ready m.writer m.retriever
  value_empty : m.updatesSwap.ready = false → m.writer ≠ some .store → m.updatesSwap.value = []
  read_empty : ∀ place, place ≠ .store → m.retriever = some place → m.updatesRead = []
  taken : m.retriever = some .store → m.updatesSwap.value = []
  split : m.issued = m.applied ++ m.updatesRead ++ m.updatesSwap.value ++ m.updatesWrite
  fold : m.applied.foldlM InfoUpdate.apply cache = some m.cache
  selects : ∀ update ∈ m.issued, Selects update

variable {cache : UniverseCache Info}

theorem conserved_init : Conserved cache { cache := cache } where
  turns := ⟨seen_none, seen_none⟩
  value_empty _ _ := rfl
  read_empty _ _ _ := rfl
  taken _ := rfl
  split := rfl
  fold := rfl
  selects _ h := by cases h

theorem conserved_addInfoUpdate (h : Conserved cache m) {added : Option (InfoUpdate Info)}
    (hsel : ∀ update, added = some update → Selects update) :
    Conserved cache (m.addInfoUpdate added) := by
  cases added with
  | none => exact h
  | some update =>
    refine ⟨h.turns, h.value_empty, h.read_empty, h.taken, ?_, h.fold, ?_⟩
    · show m.issued ++ [update] = m.applied ++ m.updatesRead ++ m.updatesSwap.value ++
        (m.updatesWrite ++ [update])
      rw [h.split, List.append_assoc _ m.updatesWrite]
    · intro u hu
      rcases List.mem_append.mp hu with hu | hu
      · exact h.selects u hu
      · rw [List.mem_singleton.mp hu]
        exact hsel update rfl

theorem conserved_publish (h : Conserved cache m) (hidle : m.writer = none) :
    Conserved cache { m with writer := some .load } where
  turns := ⟨seen_load, h.turns.retriever⟩
  value_empty hready _ := h.value_empty hready (by rw [hidle]; decide)
  read_empty := h.read_empty
  taken := h.taken
  split := h.split
  fold := h.fold
  selects := h.selects

theorem conserved_retrieve (h : Conserved cache m) (hidle : m.reader = .idle) :
    Conserved cache { m with reader := .retrieve .load [] } where
  turns := ⟨h.turns.publisher, seen_load⟩
  value_empty := h.value_empty
  read_empty _ _ _ := rfl
  taken ht := by cases ht
  split := by
    have hsplit := h.split
    rw [updatesRead, hidle] at hsplit
    exact hsplit
  fold := h.fold
  selects := h.selects

theorem conserved_writer (h : Conserved cache m) (hs : m.writerNext = some m') :
    Conserved cache m' := by
  obtain ⟨place, hplace, rfl⟩ := Option.map_eq_some_iff.mp hs
  have hturns := h.turns
  rw [hplace] at hturns
  have hnext := hturns.publish m.updatesWrite
  cases place with
  | load =>
    refine ⟨hnext, fun hready _ => ?_, h.read_empty, h.taken, h.split, h.fold, h.selects⟩
    exact h.value_empty hready (by rw [hplace]; decide)
  | swap =>
    -- the flag is false, so the list that comes out of the buffer is empty
    have hready := hturns.publisher (Or.inl rfl)
    have hvalue := h.value_empty hready (by rw [hplace]; decide)
    refine ⟨hnext, fun _ hne => absurd rfl hne, h.read_empty, fun ht => ?_, ?_, h.fold,
      h.selects⟩
    · exact (hturns.exclusive (Or.inl rfl) (Or.inr ht)).elim
    · show m.issued = m.applied ++ m.updatesRead ++ m.updatesWrite ++ m.updatesSwap.value
      rw [h.split, hvalue, List.append_nil, List.append_nil]
  | store =>
    exact ⟨hnext, fun hready => (by cases hready), h.read_empty, h.taken, h.split, h.fold,
      h.selects⟩

theorem conserved_reader (h : Conserved cache m) (hs : m.readerNext = some m') :
    Conserved cache m' := by
  rw [readerNext] at hs
  split at hs
  · cases hs
  · next place read hreader =>
    cases hs
    have hturns := h.turns
    have hret : m.retriever = some place := by rw [retriever, hreader]
    rw [hret] at hturns
    have hnext := hturns.retrieve read
    have hread : m.updatesRead = read := by rw [updatesRead, hreader]
    have hsplit := h.split
    rw [hread] at hsplit
    cases place with
    | load =>
      have hempty := h.read_empty .load (by decide) hret
      rw [hread] at hempty
      simp only [SwapBuffer.retrieve, access] at hnext ⊢
      split at hnext
      · next hready =>
        rw [if_pos hready]
        exact ⟨hnext, h.value_empty, fun _ _ _ => hempty, fun ht => (by cases ht), hsplit, h.fold,
          h.selects⟩
      · next hready =>
        rw [if_neg hready]
        exact ⟨hnext, h.value_empty, fun _ _ ht => (by cases ht), fun ht => (by cases ht), hsplit,
          h.fold, h.selects⟩
    | swap =>
      -- the list of the reader is empty, and it is what the buffer holds from now on
      have hempty := h.read_empty .swap (by decide) hret
      rw [hread] at hempty
      have hready := hturns.retriever (Or.inl rfl)
      refine ⟨hnext, fun hfalse _ => hempty, fun place hne ht => ?_, fun _ => hempty, ?_, h.fold,
        h.selects⟩
      · cases ht
        exact absurd rfl hne
      · show m.issued = m.applied ++ m.updatesSwap.value ++ read ++ m.updatesWrite
        rw [hsplit, hempty, List.append_nil, List.append_nil]
    | store =>
      exact ⟨hnext, fun _ _ => h.taken hret, fun _ _ ht => (by cases ht), fun ht => (by cases ht),
        hsplit, h.fold, h.selects⟩
  · next hreader =>
    cases hs
    have hsplit := h.split
    rw [updatesRead, hreader] at hsplit
    exact ⟨⟨h.turns.publisher, seen_none⟩, h.value_empty, fun _ _ ht => (by cases ht),
      fun ht => (by cases ht), hsplit, h.fold, h.selects⟩
  · next update rest hreader =>
    obtain ⟨cache', hcache, rfl⟩ := Option.map_eq_some_iff.mp hs
    have hsplit := h.split
    rw [updatesRead, hreader] at hsplit
    refine ⟨⟨h.turns.publisher, seen_none⟩, h.value_empty, fun _ _ ht => (by cases ht),
      fun ht => (by cases ht), ?_, ?_, h.selects⟩
    · show m.issued = m.applied ++ [update] ++ rest ++ m.updatesSwap.value ++ m.updatesWrite
      rw [hsplit, List.append_assoc m.applied [update] rest]
      rfl
    · rw [List.foldlM_append, h.fold]
      simp only [Option.bind_eq_bind, Option.bind_some, List.foldlM_cons, List.foldlM_nil, hcache]
      rfl

theorem conserved_step (h : Conserved cache m) (hg : NonzeroIds m l)
    (hs : step m l = some m') : Conserved cache m' := by
  cases l with
  | updateInfo type info =>
    obtain ⟨_, ⟨⟩⟩ := Option.ite_none_right_eq_some.mp hs
    exact conserved_addInfoUpdate h fun _ hu => selects_infoUpdate hu
  | updateInfoMap type id info =>
    obtain ⟨_, ⟨⟩⟩ := Option.ite_none_right_eq_some.mp hs
    exact conserved_addInfoUpdate h fun _ hu => selects_infoMapUpdate hg hu
  | publishUpdates =>
    obtain ⟨hidle, ⟨⟩⟩ := Option.ite_none_right_eq_some.mp hs
    exact conserved_publish h hidle
  | retrieveUpdates =>
    rw [step] at hs
    split at hs
    · next hidle =>
      cases hs
      exact conserved_retrieve h hidle
    · cases hs
  | writer => exact conserved_writer h hs
  | reader => exact conserved_reader h hs

theorem conserved_reach (h : (cacheMachine cache).Reach NonzeroIds m) : Conserved cache m := by
  refine h.invariant (fun _ hi => ?_) fun _ _ _ _ ih hg hs => conserved_step ih hg hs
  rw [show _ = _ from hi]
  exact conserved_init

/-! ### No update is lost, doubled or reordered -/

/-- Each update issued is in one place, in the order of issue. -/
structure InOrder (cache : UniverseCache Info) (m : CacheUpdater Info) : Prop where
  exclusive : ¬ (m.writer = some .swap ∧ m.retriever = some .swap)
  split : m.issued = m.applied ++ m.updatesRead ++ m.updatesReady ++ m.updatesWrite
  fold : m.applied.foldlM InfoUpdate.apply cache = some m.cache
  enabled : ∀ update ∈ m.updatesRead, ∃ out, update.apply m.cache = some out

theorem updatesReady_eq (h : Conserved cache m) : m.updatesReady = m.updatesSwap.value := by
  rw [updatesReady]
  split
  · rfl
  · next hnot =>
    obtain ⟨hready, hwriter⟩ := not_or.mp hnot
    exact (h.value_empty (Bool.eq_false_iff.mpr hready) hwriter).symm

/-- Updates are neither lost, duplicated nor reordered. -/
theorem updates_inOrder (cache : UniverseCache Info) (m : CacheUpdater Info)
    (h : (cacheMachine cache).Reach NonzeroIds m) : InOrder cache m := by
  have hc := conserved_reach h
  refine ⟨fun hswap => hc.turns.exclusive (Or.inl hswap.1) (Or.inl hswap.2), ?_, hc.fold, ?_⟩
  · rw [updatesReady_eq hc]
    exact hc.split
  · intro update hu
    have hissued : update ∈ m.issued := by
      rw [hc.split]
      simp [hu]
    exact apply_of_selects (hc.selects update hissued) m.cache

/-- The split without the updates between two buffers. -/
def SplitAtReady (m : CacheUpdater Info) : Prop :=
  m.issued =
    m.applied ++ (if m.updatesSwap.ready then m.updatesSwap.value else []) ++ m.updatesWrite

instance [DecidableEq Info] (m : CacheUpdater Info) : Decidable (SplitAtReady m) :=
  inferInstanceAs (Decidable (_ = _))

def emptyCache : UniverseCache Nat := ⟨fun _ => 0, fun _ _ => none⟩

/-- The writer publishes and has swapped, but not yet stored the flag. -/
def publishRun : List (Label Nat) :=
  [.updateInfo .universe 1, .updateInfoMap .entity 7 2, .publishUpdates, .writer, .writer]

/-- The reader has taken both updates out and applied one of them. -/
def retrieveRun : List (Label Nat) :=
  publishRun ++ [.writer, .retrieveUpdates, .reader, .reader, .reader, .reader]

theorem follows_retrieveRun :
    (cacheMachine emptyCache).Follows NonzeroIds { cache := emptyCache } retrieveRun := by
  decide

theorem updates_inOrder_retrieveRun : ∃ m, (cacheMachine emptyCache).exec
    { cache := emptyCache } retrieveRun = some m ∧ InOrder emptyCache m :=
  ⟨_, rfl, updates_inOrder emptyCache _ (Machine.Reach.exec (.init rfl) follows_retrieveRun rfl)⟩

/-- Between the swap and the store of the writer the updates are in `m_value`, which is not
ready. -/
theorem not_splitAtReady : ¬ ∀ m : CacheUpdater Nat,
    (cacheMachine emptyCache).Reach NonzeroIds m → SplitAtReady m := by
  intro h
  have hfollows : (cacheMachine emptyCache).Follows NonzeroIds { cache := emptyCache }
    publishRun := by decide
  have hreach := Machine.Reach.exec (.init rfl) hfollows rfl
  exact absurd (h _ hreach) (by decide)

end CacheUpdater
end CosmicArchitect.UniverseServer
