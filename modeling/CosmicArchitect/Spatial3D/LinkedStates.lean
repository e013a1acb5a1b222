import CosmicArchitect.Spatial3D.LinksAgree

/-!
# The states of linked nodes

`LinkNode` links a node with whatever is stored around it, in any state, and only
`UnlinkNode` takes links away. So two adjacent nodes are linked from the moment one of them
finishes loading until one of them is destroyed. `accessible_iff` turns this into the exact
condition under which only Loaded nodes are accessible.
-/

namespace CosmicArchitect.Spatial3D
open Library Compass Machine

variable {D : Type} {t : TypeData D} {G : Guard} {db : NodeCoord → Option Serialize.Bytes}
  {m : State D} {w w' : World D} {s it : Nat} {pos : Vector3i} {a b : Nat} {n l : Node D}

/-- One of the nodes at the addresses finished loading since both of them were created. -/
def met (a b : Nat) : List Event → Bool
  | [] => false
  | .loaded x :: older => x = a || x = b || met a b older
  | .created x _ :: older => !(x = a || x = b) && met a b older
  | .readStarted _ _ :: older | .deserialize _ _ _ _ :: older | .generate _ _ _ :: older
  | .serialized _ _ _ :: older | .destroyed _ _ :: older | .stored _ _ :: older
  | .finished _ _ _ :: older => met a b older

/-- Creations and loads are what `met` looks at. -/
def Event.Quiet : Event → Prop
  | .created _ _ => False
  | .loaded _ => False
  | _ => True

theorem met_append {events : List Event} (hquiet : ∀ e ∈ events, e.Quiet) (a b : Nat)
    (tr : List Event) : met a b (events ++ tr) = met a b tr := by
  induction events with
  | nil => rfl
  | cons e events ih =>
    have he := hquiet e (List.mem_cons_self ..)
    have hrest := ih fun e' he' => hquiet e' (List.mem_cons_of_mem _ he')
    cases e with
    | created => exact he.elim
    | loaded => exact he.elim
    | _ => exact hrest

/-- Stored nodes in adjacent places are linked once they have met. -/
def Met (c : World D × List Event) : Prop :=
  ∀ x y p q d, c.1.stands x p → c.1.stands y q → destination p d = some q →
    (c.1.links x d = some y ↔ met x y c.2 = true)

theorem met_keep (events : List Event) {tr : List Event} (h : Met (w, tr)) (hstands : w'.stands = w.stands)
    (hlinks : w'.links = w.links) (hquiet : ∀ e ∈ events, e.Quiet) : Met (w', events ++ tr) := by
  intro x y p q d hx hy hd
  simp only at hx hy
  rw [hstands] at hx hy
  simp only [hlinks, met_append hquiet]
  exact h x y p q d hx hy hd

theorem met_modify (events : List Event) {tr : List Event} (h : Met (w, tr)) (hw : Placed t w)
    (hat : w.At s pos a n) {f : Node D → Node D} (hcell : w'.cell = (w.modify a f).cell)
    (hheap : w'.heap = (w.modify a f).heap) (hlink : (f n).link = n.link)
    (hquiet : ∀ e ∈ events, e.Quiet) : Met (w', events ++ tr) :=
  met_keep events h (stands_keep hw hat hcell) (links_keep hat hheap hlink) hquiet

theorem met_create {tr : List Event} (hl : Linked t w) (h : Met (w, tr)) (now : Int)
    (hfind : w.find s pos = none) (ha : w.heap a = none) :
    Met (w.create t s pos now a, .created a ⟨pos, s⟩ :: tr) := by
  have hlinks : (w.create t s pos now a).links = w.links := links_create now ha
  have hcell := cell_create hl.placed now hfind ha
  have hnew : ∀ c, ¬ w.stands a c := by
    intro c hc
    obtain ⟨n, hat⟩ := at_of_stands hc
    cases ha.symm.trans hat.heap
  have hold : ∀ {x c}, (w.create t s pos now a).stands x c → x ≠ a → w.stands x c := by
    intro x c hx hxa
    obtain ⟨k, hk, hka⟩ := hx
    rw [hcell] at hk
    by_cases hc : c = ⟨pos, s⟩
    · subst hc
      rw [Function.update_self] at hk
      cases hk
      exact absurd hka.symm hxa
    · rw [Function.update_of_ne hc] at hk
      exact ⟨k, hk, hka⟩
  intro x y p q d hx hy hd
  simp only [hlinks, met]
  by_cases hxy : x = a ∨ y = a
  · refine iff_of_false ?_ (by grind)
    intro hlink
    obtain ⟨p', q', hx', -, hy'⟩ := hl.consistent.aim hlink
    rcases hxy with rfl | rfl
    · exact hnew p' hx'
    · exact hnew q' hy'
  · obtain ⟨hxa, hya⟩ := not_or.mp hxy
    have hmet := h x y p q d (hold hx hxa) (hold hy hya) hd
    simp only [hmet, Ne.symm hxa, Ne.symm hya, decide_false, Bool.or_false, Bool.not_false,
      Bool.true_and]

theorem met_load {tr : List Event} (hl : Linked t w) (h : Met (w, tr)) (now : Int)
    (hit : (w.scales s).loadingNodes[it]? = some pos) (hat : w.At s pos a n)
    (hst : n.state = .loading) :
    Met ((finishLoad t s now w a n.position).eraseLoading s it, .loaded a :: tr) := by
  have hl' := linked_load hl now hit hat hst
  have hstands : ((finishLoad t s now w a n.position).eraseLoading s it).stands = w.stands :=
    stands_load hl now hat
  have ha : (site hl.placed.grid).stands a ⟨pos, s⟩ := stands_of_at hat
  intro x y p q d hx hy hd
  have hx' : w.stands x p := hstands ▸ hx
  have hy' : w.stands y q := hstands ▸ hy
  by_cases hxa : x = a
  · -- the loaded node is linked with everything around it
    subst hxa
    cases (site hl.placed.grid).unique hx' ha
    exact iff_of_true (load_self hl now hat hy' hd) (by simp [met])
  · by_cases hya : y = a
    · -- and everything around it with the loaded node
      subst hya
      cases (site hl.placed.grid).unique hy' ha
      have hback : ((finishLoad t s now w y n.position).eraseLoading s it).links y _ = some x :=
        load_self hl now hat hx' (compass.dest_back hd)
      have hy'' : (site hl'.placed.grid).stands y ⟨pos, s⟩ := hy
      have hpair := hl'.consistent.paired hy'' hback
      have hd' := compass.back_back hd
      rw [hd'] at hpair
      exact iff_of_true hpair (by simp [met])
    · have hsame : ((finishLoad t s now w a n.position).eraseLoading s it).links x d = some y ↔
          w.links x d = some y := by
        rw [links_load hl now hat]
        constructor
        · intro hlink
          rcases join_new _ hlink with hold | hnew | hnew
          · exact hold
          · exact absurd hnew hxa
          · exact absurd hnew hya
        · exact (join_all (occupant_iff hl.placed.grid) ha _ hl.consistent).2.1
      have hmet := h x y p q d hx' hy' hd
      simp only [hsame, hmet, met, Ne.symm hxa, Ne.symm hya, decide_false, Bool.false_or]

theorem met_destroy {tr : List Event} (hl : Linked t w) (h : Met (w, tr)) (hat : w.At s pos a n)
    (c : NodeCoord) :
    Met ((finishUnload t s w a n.position).eraseUnloading s it, .destroyed a c :: tr) := by
  have ha : (site hl.placed.grid).stands a ⟨pos, s⟩ := stands_of_at hat
  obtain ⟨all, hdropped, -⟩ := unlinkNode_dropped hl.placed.grid ha hl.tidy hl.consistent
  intro x y p q d hx hy hd
  obtain ⟨hxa, hx'⟩ := (stands_destroy hl hat x p).mp hx
  obtain ⟨hya, hy'⟩ := (stands_destroy hl hat y q).mp hy
  have hmet := h x y p q d hx' hy' hd
  simp only [links_destroy, if_neg hxa, met]
  refine Iff.trans ⟨hdropped.less, fun hlink => ?_⟩ hmet
  rw [hdropped.keep]
  · exact hlink
  · rw [hlink]
    exact fun heq => hya (Option.some.inj heq)

theorem readEvents_quiet (t : TypeData D) (a : Nat) (c : NodeCoord) (io : IOTask) :
    ∀ e ∈ (readEvents t a c io).reverse, e.Quiet := by
  intro e he
  rw [List.mem_reverse] at he
  unfold readEvents at he
  split at he
  · obtain ⟨i, -, rfl⟩ := List.mem_map.mp he
    exact trivial
  · obtain ⟨i, -, rfl⟩ := List.mem_map.mp he
    exact trivial
  · cases he

theorem effect_met {c c' : World D × List Event} (hl : Linked t c.1) (h : Met c)
    (he : Effect t G c c') : Met c' := by
  have hone : ∀ e : Event, e.Quiet → ∀ e' ∈ [e], e'.Quiet := by
    intro e he e' he'
    cases List.mem_singleton.mp he'
    exact he
  have hnone : ∀ e ∈ ([] : List Event), e.Quiet := fun e he => by cases he
  have hw := hl.placed
  cases he with
  | touch now hat =>
    exact met_modify [] h hw hat rfl rfl rfl hnone
  | edit body hat =>
    exact met_modify [] h hw hat rfl rfl rfl hnone
  | create now _ hfind ha => exact met_create hl h now hfind ha
  | mark hat _ =>
    exact met_modify [] h hw hat (cell_mark _ _) rfl rfl hnone
  | unloadWorld => exact met_keep [] h rfl rfl hnone
  | startRead hat _ _ _ _ _ =>
    exact met_modify [_] h hw hat rfl rfl rfl (hone _ trivial)
  | finishRead seed hat _ _ _ _ _ _ _ =>
    exact met_modify _ h hw hat rfl rfl rfl (readEvents_quiet _ _ _ _)
  | load now _ hit hat hst _ => exact met_load hl h now hit hat hst
  | startWrite hat _ _ _ _ _ =>
    exact met_modify [_] h hw hat rfl rfl rfl (hone _ trivial)
  | destroy _ _ hat _ _ => exact met_destroy hl h hat _
  | @destroyWritten w _ _ _ _ a _ τ _ _ _ hat _ =>
    have hw1 : Placed t (w.finishWrite a τ) := placed_keep hw rfl (place_finishWrite hat.heap)
    have h1 : Linked t (w.finishWrite a τ) :=
      linked_modify hl hw1 hat rfl rfl rfl (fun hn => ⟨hn.1, hn.2, hn.3⟩) id
    have hm1 : Met (w.finishWrite a τ, _) := met_modify [] h hw hat rfl rfl rfl hnone
    exact met_destroy h1 hm1 (at_finishWrite hat) _
  | performRead outcome _ _ _ _ _ _ => exact met_keep [] h rfl rfl hnone
  | @performWrite _ _ _ _ io outcome _ _ _ _ _ _ =>
    refine met_keep _ h rfl rfl ?_
    cases outcome with
    | ok => exact hone _ trivial
    | error => exact hnone
  | finish _ _ _ => exact met_keep [_] h rfl rfl (hone _ trivial)

theorem reach_met (h : (worldMachine t db).Reachable m) :
    Linked t m.world ∧ Met m.config := by
  refine (reach_invariant (I := fun c => Linked t c.1 ∧ Met c) ⟨linked_initial t db, ?_⟩
    (fun _ hc he => ⟨effect_linked hc.1 he, effect_met hc.1 hc.2 he⟩) (reach_any h)).2
  intro x y p q d hx
  obtain ⟨k, hk, -⟩ := hx
  cases hk

/-! ### Accessible nodes -/

/-- The node at the address is Loaded. -/
def World.IsLoaded (w : World D) (b : Nat) : Prop := ∃ l, w.heap b = some l ∧ l.state = .loaded

/-- Every pointer of a stored node leads to a Loaded node. -/
structure World.OnlyLoadedAccessible (w : World D) : Prop where
  parent : ∀ s pos a n b, w.At s pos a n → n.parent = some b → w.IsLoaded b
  child : ∀ s pos a n i b, w.At s pos a n → n.children i = some b → w.IsLoaded b
  neighbour : ∀ s pos a n i b, w.At s pos a n → n.neighbours i = some b → w.IsLoaded b

/-- Of two stored nodes in adjacent places, one of which finished loading since both were
created, the second is Loaded. -/
def MetAreLoaded (m : State D) : Prop :=
  ∀ p q d a b n l, destination p d = some q → m.world.At p.scaleIndex p.position a n →
    m.world.At q.scaleIndex q.position b l → met a b m.trace = true → l.state = .loaded

theorem onlyLoadedAccessible_iff_link : w.OnlyLoadedAccessible ↔
    ∀ s pos a n d b, w.At s pos a n → n.link d = some b → w.IsLoaded b := by
  constructor
  · intro h s pos a n d b hat hb
    cases d with
    | neighbour i => exact h.neighbour s pos a n i b hat hb
    | child i => exact h.child s pos a n i b hat hb
    | parent => exact h.parent s pos a n b hat hb
  · intro h
    exact ⟨fun s pos a n b hat hb => h s pos a n .parent b hat hb,
      fun s pos a n i b hat hb => h s pos a n (.child i) b hat hb,
      fun s pos a n i b hat hb => h s pos a n (.neighbour i) b hat hb⟩

/-- In every reachable state only Loaded nodes are accessible if and only if adjacent nodes
that have met are Loaded. -/
theorem accessible_iff (h : (worldMachine t db).Reachable m) :
    m.world.OnlyLoadedAccessible ↔ MetAreLoaded m := by
  obtain ⟨hl, hmet⟩ := reach_met h
  rw [onlyLoadedAccessible_iff_link]
  constructor
  · intro hall p q d a b n l hd hat hat' hmeet
    have hlink : n.link d = some b := by
      rw [← links_of_heap hat.heap]
      exact (hmet a b p q d (stands_of_at hat) (stands_of_at hat') hd).mpr hmeet
    obtain ⟨l', hl', hst⟩ := hall _ _ a n d b hat hlink
    cases hat'.heap.symm.trans hl'
    exact hst
  · intro hall s pos a n d b hat hlink
    obtain ⟨q, l, hd, hat', -⟩ := hl.lead hat hlink
    have hlinks : m.world.links a d = some b := (links_of_heap hat.heap d).trans hlink
    have hmeet := (hmet a b ⟨pos, s⟩ q d (stands_of_at hat) (stands_of_at hat') hd).mp hlinks
    exact ⟨l, hat'.heap, hall ⟨pos, s⟩ q d a b n l hd hat hat' hmeet⟩

/-- The neighbour of a node that is about to finish loading is created. -/
def neighbourRun {D : Type} : List (Label D) :=
  [.touchNode 0 ⟨0, 0, 0⟩ 0 0, .worldDoNodeLoadCommands 0, .next 0 0, .perform 0 .ok, .finish 0] ++
    passScales ++ [.worldDoNodeLoadCommands 1, .next 1 0] ++ passScales ++
    [.touchNode 0 ⟨1, 0, 0⟩ 1 1, .worldDoNodeLoadCommands 2, .next 1 0, .next 1 0] ++
    List.replicate 17 (.next 2 0)

/-- Between two updates the Loaded node points to the Loading one. -/
theorem loading_node_accessible :
    ∃ m n l, (worldMachine Universe.universeType fun _ => none).Reachable m ∧
      m.control = .idle ∧ m.world.At 0 ⟨0, 0, 0⟩ 0 n ∧ n.neighbours 5 = some 1 ∧
      m.world.heap 1 = some l ∧ l.state = .loading ∧ ¬ m.world.OnlyLoadedAccessible := by
  have hrun : ((worldMachine Universe.universeType fun _ => none).exec (initial _ fun _ => none)
      neighbourRun).map (fun m => (m.control, m.world.find 0 ⟨0, 0, 0⟩,
        (m.world.heap 0).bind (·.neighbours 5), (m.world.heap 1).map (·.state))) =
        some (.idle, some (some 0), some 1, some .loading) := by decide +kernel
  obtain ⟨m, hm, hall⟩ := Option.map_eq_some_iff.mp hrun
  simp only [Prod.mk.injEq] at hall
  obtain ⟨hcontrol, hfind, hneighbour, hstate⟩ := hall
  obtain ⟨n, hn, hb⟩ := Option.bind_eq_some_iff.mp hneighbour
  obtain ⟨l, hl, hst⟩ := Option.map_eq_some_iff.mp hstate
  refine ⟨m, n, l, reachable_of_exec rfl hm, hcontrol, ⟨hfind, hn⟩, hb, hl, hst, fun h => ?_⟩
  obtain ⟨l', hl', hst'⟩ := h.neighbour 0 ⟨0, 0, 0⟩ 0 n 5 1 ⟨hfind, hn⟩ hb
  cases hl.symm.trans hl'
  cases hst.symm.trans hst'

/-- Two neighbours that both finished loading. -/
theorem accessible_iff_linkRun :
    ∃ m, (worldMachine Universe.galaxyType fun _ => none).exec (initial _ fun _ => none)
        linkRun = some m ∧ (m.world.OnlyLoadedAccessible ↔ MetAreLoaded m) := by
  obtain ⟨m, hm⟩ := Option.isSome_iff_exists.mp
    (show ((worldMachine Universe.galaxyType fun _ => none).exec (initial _ fun _ => none)
      linkRun).isSome = true from by decide +kernel)
  exact ⟨m, hm, accessible_iff (reachable_of_exec rfl hm)⟩

end CosmicArchitect.Spatial3D
