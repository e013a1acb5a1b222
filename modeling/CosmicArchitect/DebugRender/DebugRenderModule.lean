import CosmicArchitect.Spatial3D.LinkedStates

/-!
# The debug view of a world (DebugRender/DebugRenderModule.cpp)

`BuildWorldDebugVisualization` draws a line box for each node without children, all of them as
instances of one multimesh whose buffer it doubles when they no longer fit. The updates of the view
come between any steps of the world. A number of the instance data is the integer that the code
converts to a float.
-/

namespace CosmicArchitect.DebugRender
open Library Spatial3D

variable {D : Type}

/-- The cell of a node in units of its scale. -/
structure Box where
  scaleMod : Int
  position : Vector3i
deriving DecidableEq, Repr

/-- The rows of the transform (lines 128-142). -/
def Box.transform (b : Box) : List Int :=
  [b.scaleMod, 0, 0, b.position.x * b.scaleMod,
    0, b.scaleMod, 0, b.position.y * b.scaleMod,
    0, 0, b.scaleMod, b.position.z * b.scaleMod]

inductive Command
  | multimeshAllocateData (instances : Nat)
  | multimeshSetVisibleInstances (visible : Nat)
  | multimeshSetBuffer (buffer : List Int)
deriving DecidableEq, Repr

/-- The world that is viewed, the `buffer_size` of the view and the commands so far. No step reads
`peak`, the greatest number of boxes. -/
structure DebugWorld (D : Type) where
  spatial : State D
  bufferSize : Nat := 0
  commands : List Command := []
  peak : Nat := 0

/-- The loop over the nodes of a scale; `none` when it reads behind a dangling pointer. -/
def scaleBoxes (w : World D) (scaleMod : Int) :
    List (Sigma fun _ : Vector3i => NodePtr) → Option (List Box)
  | [] => some []
  | ⟨_, none⟩ :: rest => scaleBoxes w scaleMod rest
  | ⟨pos, some a⟩ :: rest => (w.heap a).bind fun node =>
    (scaleBoxes w scaleMod rest).map fun boxes =>
      if node.childrenMask ≠ 0 then boxes else ⟨scaleMod, pos⟩ :: boxes

def scaleMod (nodeSize s : Nat) : Int := 2 ^ s * nodeSize

def worldBoxes (nodeSize : Nat) (w : World D) : List Nat → Option (List Box)
  | [] => some []
  | s :: rest => (scaleBoxes w (scaleMod nodeSize s) (w.scales s).nodes.entries).bind fun boxes =>
    (worldBoxes nodeSize w rest).map (boxes ++ ·)

/-- The `do` loop, from a size that is not zero. -/
def doubled (nodeCount size : Nat) (h : 0 < size) : Nat :=
  if 2 * size < nodeCount then doubled nodeCount (2 * size) (by omega) else 2 * size
termination_by nodeCount - size

def grown (nodeCount size : Nat) : Nat :=
  if size < nodeCount then
    if h : size = 0 then doubled nodeCount 1 Nat.one_pos
    else doubled nodeCount size (Nat.pos_of_ne_zero h)
  else size

/-- `resize`; what is in the new places is not specified. -/
def resize (padding : Nat → Int) (data : List Int) (size : Nat) : List Int :=
  (List.range size).map fun i => data.getD i (padding i)

/-- The commands of `BuildWorldDebugVisualization` (lines 149-175). -/
def buildCommands (padding : Nat → Int) (size : Nat) (boxes : List Box) : List Command :=
  (if size < boxes.length then [.multimeshAllocateData (grown boxes.length size)] else []) ++
    if 0 < boxes.length then
      [.multimeshSetVisibleInstances boxes.length,
        .multimeshSetBuffer
          (resize padding (boxes.flatMap Box.transform) (grown boxes.length size * 12))]
    else []

namespace DebugWorld

inductive Label (D : Type)
  | world (l : Spatial3D.Label D)
  | build (padding : Nat → Int)

def step (nodeSize : Nat) (t : TypeData D) (m : DebugWorld D) : Label D → Option (DebugWorld D)
  | .world l => (Spatial3D.step t m.spatial l).map fun spatial => { m with spatial := spatial }
  | .build padding =>
    (worldBoxes nodeSize m.spatial.world (List.range t.maxScale)).map fun boxes =>
      { m with
        bufferSize := grown boxes.length m.bufferSize
        commands := m.commands ++ buildCommands padding m.bufferSize boxes
        peak := max m.peak boxes.length }

def machine (nodeSize : Nat) (t : TypeData D) (db : NodeCoord → Option Serialize.Bytes) :
    Machine (DebugWorld D) (Label D) where
  init m := m = { spatial := initial D db }
  step := step nodeSize t

end DebugWorld
/-! ### The boxes -/

/-- What the loop takes from an entry of the node map. -/
def leafBox (w : World D) (scaleMod : Int) (e : Sigma fun _ : Vector3i => NodePtr) : Option Box :=
  (e.2.bind w.heap).bind fun node =>
    if node.childrenMask ≠ 0 then none else some ⟨scaleMod, e.1⟩

section
variable {w : World D} {t : TypeData D} {nodeSize : Nat}

theorem scaleBoxes_eq {k : Int} : ∀ {entries : List (Sigma fun _ : Vector3i => NodePtr)},
    (∀ e ∈ entries, ∀ a, e.2 = some a → ∃ n, w.heap a = some n) →
      scaleBoxes w k entries = some (entries.filterMap (leafBox w k)) := by
  intro entries
  induction entries with
  | nil => exact fun _ => rfl
  | cons e rest ih =>
    intro hlive
    have hrest := ih fun e' he' => hlive e' (List.mem_cons_of_mem _ he')
    obtain ⟨pos, node⟩ := e
    cases node with
    | none =>
      rw [scaleBoxes, hrest, List.filterMap_cons_none rfl]
    | some a =>
      obtain ⟨n, hn⟩ := hlive ⟨pos, some a⟩ (List.mem_cons_self ..) a rfl
      have hleaf : leafBox w k ⟨pos, some a⟩ =
          if n.childrenMask ≠ 0 then none else some ⟨k, pos⟩ := by
        simp only [leafBox, Option.bind_some, hn]
      rw [scaleBoxes, hrest, hn, Option.bind_some, Option.map_some, List.filterMap_cons, hleaf]
      by_cases hmask : n.childrenMask ≠ 0
      · rw [if_pos hmask, if_pos hmask]
      · rw [if_neg hmask, if_neg hmask]

theorem worldBoxes_eq (hlive : ∀ s pos a, w.find s pos = some (some a) → ∃ n, w.heap a = some n) :
    ∀ scales, worldBoxes nodeSize w scales = some (scales.flatMap fun s =>
      (w.scales s).nodes.entries.filterMap (leafBox w (scaleMod nodeSize s))) := by
  intro scales
  induction scales with
  | nil => rfl
  | cons s rest ih =>
    have hnodes : ∀ e ∈ (w.scales s).nodes.entries, ∀ a, e.2 = some a →
        ∃ n, w.heap a = some n := by
      intro ⟨pos, node⟩ he a ha
      cases ha
      exact hlive s pos a (AList.mem_lookup_iff.mpr he)
    have hscale := @scaleBoxes_eq D w (scaleMod nodeSize s) _ hnodes
    rw [worldBoxes, hscale, Option.bind_some, ih, Option.map_some, List.flatMap_cons]

theorem scaleMod_inj (hsize : 0 < nodeSize) {s s' : Nat}
    (h : scaleMod nodeSize s = scaleMod nodeSize s') : s = s' := by
  unfold scaleMod at h
  have hpow : (2 : Int) ^ s = 2 ^ s' :=
    Int.eq_of_mul_eq_mul_right (by omega) h
  exact Nat.pow_right_injective le_rfl (by exact_mod_cast hpow)

/-- The boxes of a world: one for each node without a child. -/
structure ShowsLeaves (nodeSize : Nat) (w : World D) (boxes : List Box) : Prop where
  nodup : boxes.Nodup
  mem : ∀ box, box ∈ boxes ↔ ∃ s pos a n, w.At s pos a n ∧
    box = ⟨scaleMod nodeSize s, pos⟩ ∧ ∀ i, i < 8 → n.children i = none
  nested : ∀ s pos a n i b l, w.At (s + 1) pos a n → i < 8 →
    w.At s (pos.shl 1 + nodeChildOffsets i) b l → n.state ≠ .loading → l.state ≠ .loading →
      ⟨scaleMod nodeSize (s + 1), pos⟩ ∉ boxes

theorem childrenMask_eq_zero {n : Node D} (h : n.Tidy) :
    n.childrenMask = 0 ↔ ∀ i, i < 8 → n.children i = none := by
  rw [BitVec.eq_of_getLsbD_eq_iff]
  refine forall_congr' fun i => forall_congr' fun hi => ?_
  rw [h.children i hi, show (0 : BitVec 8).getLsbD i = false from BitVec.getLsbD_zero]
  cases n.children i <;> simp

theorem leafBox_eq_some {pos : Vector3i} {node : NodePtr} {k : Int} {box : Box} :
    leafBox w k ⟨pos, node⟩ = some box ↔
      ∃ a n, node = some a ∧ w.heap a = some n ∧ n.childrenMask = 0 ∧ box = ⟨k, pos⟩ := by
  unfold leafBox
  constructor
  · intro h
    obtain ⟨n, hn, hleaf⟩ := Option.bind_eq_some_iff.mp h
    obtain ⟨a, ha, hheap⟩ := Option.bind_eq_some_iff.mp hn
    obtain ⟨hmask, heq⟩ := Option.ite_none_left_eq_some.mp hleaf
    exact ⟨a, n, ha, hheap, not_not.mp hmask, (Option.some.inj heq).symm⟩
  · rintro ⟨a, n, rfl, hheap, hmask, rfl⟩
    rw [Option.bind_some, hheap, Option.bind_some, if_neg (not_not.mpr hmask)]

/-- Keys of one map differ, and so do the sizes of different scales. -/
theorem nodup_boxes (hsize : 0 < nodeSize) (w : World D) {scales : List Nat}
    (hscales : scales.Nodup) : (scales.flatMap fun s =>
      (w.scales s).nodes.entries.filterMap (leafBox w (scaleMod nodeSize s))).Nodup := by
  have hbox : ∀ {s box}, box ∈ (w.scales s).nodes.entries.filterMap
      (leafBox w (scaleMod nodeSize s)) → box.scaleMod = scaleMod nodeSize s := by
    intro s box hmem
    obtain ⟨⟨pos, node⟩, -, hleaf⟩ := List.mem_filterMap.mp hmem
    obtain ⟨a, n, -, -, -, rfl⟩ := leafBox_eq_some.mp hleaf
    rfl
  refine List.nodup_flatMap.mpr ⟨fun s _ => ?_, hscales.imp fun {s s'} hne => ?_⟩
  · refine List.Pairwise.filterMap _ ?_ (List.nodupKeys_iff_pairwise.mp (w.scales s).nodes.nodupKeys)
    rintro ⟨pos, node⟩ ⟨pos', node'⟩ hpos box hleaf box' hleaf' heq
    obtain ⟨a, n, -, -, -, rfl⟩ := leafBox_eq_some.mp hleaf
    obtain ⟨a', n', -, -, -, rfl⟩ := leafBox_eq_some.mp hleaf'
    exact hpos (Box.mk.inj heq).2
  · intro box hmem hmem'
    exact hne (scaleMod_inj hsize ((hbox hmem).symm.trans (hbox hmem')))

/-- In a world with consistent links the loop meets no dangling pointer, and what it pushes back are
the boxes of the leaves. -/
theorem worldBoxes_leaves (hsize : 0 < nodeSize) (h : Linked t w) :
    ∃ boxes, worldBoxes nodeSize w (List.range t.maxScale) = some boxes ∧
      ShowsLeaves nodeSize w boxes := by
  have hlive : ∀ s pos a, w.find s pos = some (some a) → ∃ n, w.heap a = some n := fun s pos a hf =>
    (h.placed.grid.live hf).2.imp fun n hn => hn.1
  have hmem : ∀ box, box ∈ (List.range t.maxScale).flatMap (fun s =>
      (w.scales s).nodes.entries.filterMap (leafBox w (scaleMod nodeSize s))) ↔
        ∃ s pos a n, w.At s pos a n ∧ box = ⟨scaleMod nodeSize s, pos⟩ ∧
          ∀ i, i < 8 → n.children i = none := by
    intro box
    constructor
    · intro hbox
      obtain ⟨s, -, hbox⟩ := List.mem_flatMap.mp hbox
      obtain ⟨⟨pos, node⟩, he, hleaf⟩ := List.mem_filterMap.mp hbox
      obtain ⟨a, n, rfl, hheap, hmask, rfl⟩ := leafBox_eq_some.mp hleaf
      exact ⟨s, pos, a, n, ⟨AList.mem_lookup_iff.mpr he, hheap⟩, rfl,
        (childrenMask_eq_zero (h.tidy a n hheap)).mp hmask⟩
    · rintro ⟨s, pos, a, n, hat, rfl, hnone⟩
      refine List.mem_flatMap.mpr ⟨s, List.mem_range.mpr (h.placed.grid.live hat.find).1, ?_⟩
      refine List.mem_filterMap.mpr ⟨⟨pos, some a⟩, AList.mem_lookup_iff.mp hat.find, ?_⟩
      exact leafBox_eq_some.mpr ⟨a, n, rfl, hat.heap,
        (childrenMask_eq_zero (h.tidy a n hat.heap)).mpr hnone, rfl⟩
  refine ⟨_, worldBoxes_eq hlive _, nodup_boxes hsize w List.nodup_range, hmem, ?_⟩
  intro s pos a n i b l hat hi hchild hn hl hbox
  obtain ⟨s', pos', a', n', hat', heq, hnone⟩ := (hmem _).mp hbox
  obtain ⟨hscale, rfl⟩ := Box.mk.inj heq
  cases scaleMod_inj hsize hscale
  have hsame := hat.find.symm.trans hat'.find
  cases hsame
  cases hat.heap.symm.trans hat'.heap
  cases (h.linksAgree.nested s pos a n b l i hat hi hchild hn hl).1.symm.trans (hnone i hi)

end

/-! ### The buffer -/

theorem le_doubled {nodeCount size : Nat} (h : 0 < size) :
    nodeCount ≤ doubled nodeCount size h ∧ 2 * size ≤ doubled nodeCount size h := by
  induction size, h using doubled.induct nodeCount with
  | case1 size h hlt ih =>
    rw [doubled, if_pos hlt]
    exact ⟨ih.1, by omega⟩
  | case2 size h hlt =>
    rw [doubled, if_neg hlt]
    exact ⟨by omega, le_rfl⟩

theorem doubled_le {nodeCount size : Nat} (h : 0 < size) (hle : size ≤ nodeCount) :
    doubled nodeCount size h ≤ 2 * nodeCount := by
  induction size, h using doubled.induct nodeCount with
  | case1 size h hlt ih =>
    rw [doubled, if_pos hlt]
    exact ih (by omega)
  | case2 size h hlt =>
    rw [doubled, if_neg hlt]
    omega

/-- A buffer that is too small is doubled at least once, and no more than it has to be. -/
theorem grown_of_lt {nodeCount size : Nat} (h : size < nodeCount) :
    nodeCount ≤ grown nodeCount size ∧ 2 * max size 1 ≤ grown nodeCount size ∧
      grown nodeCount size ≤ 2 * nodeCount := by
  rw [grown, if_pos h]
  split
  · next hzero =>
    have hle := @le_doubled nodeCount 1 Nat.one_pos
    exact ⟨hle.1, by omega, doubled_le _ (by omega)⟩
  · next hne =>
    have hle := @le_doubled nodeCount size (Nat.pos_of_ne_zero hne)
    exact ⟨hle.1, by omega, doubled_le _ (Nat.le_of_lt h)⟩

theorem grown_of_le {nodeCount size : Nat} (h : nodeCount ≤ size) : grown nodeCount size = size :=
  if_neg (Nat.not_lt.mpr h)

theorem le_grown (nodeCount size : Nat) : nodeCount ≤ grown nodeCount size := by
  by_cases h : size < nodeCount
  · exact (grown_of_lt h).1
  · rw [grown_of_le (Nat.not_lt.mp h)]
    exact Nat.not_lt.mp h

/-- The commands fit the instances allocated before them: no more are visible, and a buffer has the
twelve numbers of each. -/
def Fits : Nat → List Command → Prop
  | _, [] => True
  | _, .multimeshAllocateData instances :: rest => Fits instances rest
  | instances, .multimeshSetVisibleInstances visible :: rest =>
    visible ≤ instances ∧ Fits instances rest
  | instances, .multimeshSetBuffer buffer :: rest =>
    buffer.length = instances * 12 ∧ Fits instances rest

/-- The instances allocated behind the commands. -/
def allocated : Nat → List Command → Nat
  | instances, [] => instances
  | _, .multimeshAllocateData instances :: rest => allocated instances rest
  | instances, _ :: rest => allocated instances rest

def Command.isAllocation : Command → Bool
  | .multimeshAllocateData _ => true
  | _ => false

def allocations (commands : List Command) : Nat := commands.countP Command.isAllocation

theorem fits_append {l l' : List Command} : ∀ {instances},
    Fits instances (l ++ l') ↔ Fits instances l ∧ Fits (allocated instances l) l' := by
  induction l with
  | nil => exact fun {instances} => (and_iff_right trivial).symm
  | cons c rest ih =>
    intro instances
    cases c with
    | multimeshAllocateData n => exact ih
    | multimeshSetVisibleInstances n => exact (and_congr_right' ih).trans and_assoc.symm
    | multimeshSetBuffer buffer => exact (and_congr_right' ih).trans and_assoc.symm

theorem allocated_append {l l' : List Command} : ∀ {instances},
    allocated instances (l ++ l') = allocated (allocated instances l) l' := by
  induction l with
  | nil => exact fun {instances} => rfl
  | cons c rest ih =>
    intro instances
    cases c <;> exact ih

theorem length_resize (padding : Nat → Int) (data : List Int) (size : Nat) :
    (resize padding data size).length = size := by
  rw [resize, List.length_map, List.length_range]

theorem take_resize {padding : Nat → Int} {data : List Int} {size : Nat} (h : data.length ≤ size) :
    (resize padding data size).take data.length = data := by
  refine List.ext_getElem? fun i => ?_
  rw [List.getElem?_take]
  split
  · next hi =>
    have hrange : i < size := by omega
    rw [resize, List.getElem?_map, List.getElem?_range hrange, Option.map_some,
      List.getD_eq_getElem?_getD, List.getElem?_eq_getElem hi, Option.getD_some]
  · next hi =>
    exact (List.getElem?_eq_none (Nat.not_lt.mp hi)).symm

theorem length_transforms (boxes : List Box) :
    (boxes.flatMap Box.transform).length = boxes.length * 12 := by
  rw [List.length_flatMap, List.map_congr_left fun b _ => show b.transform.length = 12 from rfl,
    List.map_const', List.sum_replicate_nat]

/-- What a build sends: nothing without boxes, else as many visible instances as there are boxes,
the first ones in the buffer. -/
structure Sends (size : Nat) (boxes : List Box) (commands : List Command) : Prop where
  fits : Fits size commands
  allocated : allocated size commands = grown boxes.length size
  none : boxes = [] → commands = []
  some : boxes ≠ [] → ∃ buffer, [.multimeshSetVisibleInstances boxes.length,
    .multimeshSetBuffer buffer] <:+ commands ∧
      buffer.take (boxes.length * 12) = boxes.flatMap Box.transform

theorem sends_buildCommands (padding : Nat → Int) (size : Nat) (boxes : List Box) :
    Sends size boxes (buildCommands padding size boxes) := by
  have hgrown := le_grown boxes.length size
  have hlength := length_transforms boxes
  have htake : (resize padding (boxes.flatMap Box.transform)
      (grown boxes.length size * 12)).take (boxes.length * 12) = boxes.flatMap Box.transform := by
    rw [← hlength]
    exact take_resize (by omega)
  have hbuffer := length_resize padding (boxes.flatMap Box.transform) (grown boxes.length size * 12)
  unfold buildCommands
  by_cases hpos : 0 < boxes.length
  · rw [if_pos hpos]
    have hne : boxes ≠ [] := List.ne_nil_of_length_pos hpos
    by_cases hlt : size < boxes.length
    · rw [if_pos hlt]
      exact ⟨⟨hgrown, hbuffer, trivial⟩, rfl, fun hnil => absurd hnil hne,
        fun _ => ⟨_, List.suffix_append .., htake⟩⟩
    · rw [if_neg hlt]
      have hsame := grown_of_le (Nat.not_lt.mp hlt)
      rw [hsame] at hbuffer htake ⊢
      exact ⟨⟨Nat.not_lt.mp hlt, hbuffer, trivial⟩, hsame.symm, fun hnil => absurd hnil hne,
        fun _ => ⟨_, List.suffix_append .., htake⟩⟩
  · have hnil : boxes = [] := List.length_eq_zero_iff.mp (Nat.eq_zero_of_not_pos hpos)
    subst hnil
    have hfits : ¬size < ([] : List Box).length := Nat.not_lt_zero size
    rw [if_neg hpos, if_neg hfits]
    exact ⟨trivial, (grown_of_le (Nat.zero_le size)).symm, fun _ => rfl, fun hne => absurd rfl hne⟩

theorem allocations_buildCommands (padding : Nat → Int) (size : Nat) (boxes : List Box) :
    allocations (buildCommands padding size boxes) = if size < boxes.length then 1 else 0 := by
  unfold buildCommands allocations
  rw [List.countP_append]
  split <;> split <;> rfl

namespace DebugWorld

section
variable {t : TypeData D} {db : NodeCoord → Option Serialize.Bytes} {nodeSize : Nat}
  {m m' : DebugWorld D}

/-- The buffer and the commands so far. -/
structure Sized (m : DebugWorld D) : Prop where
  fits : Fits 0 m.commands
  allocated : allocated 0 m.commands = m.bufferSize
  bounded : m.bufferSize ≤ 2 * m.peak
  allocations : 2 ^ allocations m.commands ≤ max m.bufferSize 1

theorem Sized.build (h : Sized m) (padding : Nat → Int) (boxes : List Box) :
    Sized { m with
      bufferSize := grown boxes.length m.bufferSize
      commands := m.commands ++ buildCommands padding m.bufferSize boxes
      peak := max m.peak boxes.length } := by
  have hsends := sends_buildCommands padding m.bufferSize boxes
  have hbounded := h.bounded
  refine ⟨fits_append.mpr ⟨h.fits, ?_⟩, ?_, ?_, ?_⟩
  · rw [h.allocated]
    exact hsends.fits
  · rw [allocated_append, h.allocated]
    exact hsends.allocated
  · show grown boxes.length m.bufferSize ≤ 2 * max m.peak boxes.length
    by_cases hlt : m.bufferSize < boxes.length
    · have := (grown_of_lt hlt).2.2
      omega
    · rw [grown_of_le (Nat.not_lt.mp hlt)]
      omega
  · show 2 ^ DebugRender.allocations (m.commands ++ _) ≤ max (grown boxes.length m.bufferSize) 1
    have hbefore : 2 ^ DebugRender.allocations m.commands ≤ max m.bufferSize 1 := h.allocations
    have hsum : DebugRender.allocations (m.commands ++ buildCommands padding m.bufferSize boxes) =
        DebugRender.allocations m.commands + if m.bufferSize < boxes.length then 1 else 0 :=
      List.countP_append.trans (congrArg _ (allocations_buildCommands padding m.bufferSize boxes))
    rw [hsum]
    by_cases hlt : m.bufferSize < boxes.length
    · have hgrown := (grown_of_lt hlt).2.1
      rw [if_pos hlt, Nat.pow_succ]
      omega
    · rw [if_neg hlt, grown_of_le (Nat.not_lt.mp hlt)]
      exact hbefore

theorem reach_spatial (h : (machine nodeSize t db).Reachable m) :
    (worldMachine t db).Reachable m.spatial ∧ Sized m := by
  refine h.invariant (I := fun m => (worldMachine t db).Reachable m.spatial ∧ Sized m) ?_ ?_
  · intro m hinit
    cases hinit
    exact ⟨.init rfl, trivial, rfl, le_rfl, le_rfl⟩
  · intro m l m' _ hm _ hs
    cases l with
    | world l =>
      obtain ⟨spatial, hspatial, rfl⟩ := Option.map_eq_some_iff.mp hs
      exact ⟨hm.1.step trivial hspatial, hm.2.fits, hm.2.allocated, hm.2.bounded, hm.2.allocations⟩
    | build padding =>
      obtain ⟨boxes, -, rfl⟩ := Option.map_eq_some_iff.mp hs
      exact ⟨hm.1, hm.2.build padding boxes⟩

/-- The view can be built of any state, and it sends the boxes of the leaves there are. -/
def ViewsLeaves (nodeSize : Nat) (t : TypeData D) (m : DebugWorld D) : Prop :=
  ∃ boxes, ShowsLeaves nodeSize m.spatial.world boxes ∧ ∀ padding, ∃ m' commands,
    step nodeSize t m (.build padding) = some m' ∧ m'.spatial = m.spatial ∧
      m'.commands = m.commands ++ commands ∧ Sends m.bufferSize boxes commands

/-- Whenever the view of a world is built, one box for each node without a child is visible, in a buffer
of the size last allocated. The buffer has no more than twice the room for the most boxes there have
been, and it is allocated at most logarithmically often. -/
theorem debug_view_exact (hsize : 0 < nodeSize) (h : (machine nodeSize t db).Reachable m) :
    ViewsLeaves nodeSize t m ∧ Sized m := by
  obtain ⟨hspatial, hsized⟩ := reach_spatial h
  obtain ⟨boxes, hboxes, hshows⟩ := worldBoxes_leaves hsize (reach_met hspatial).1
  refine ⟨⟨boxes, hshows, fun padding => ?_⟩, hsized⟩
  have hstep : step nodeSize t m (.build padding) = some { m with
      bufferSize := grown boxes.length m.bufferSize
      commands := m.commands ++ buildCommands padding m.bufferSize boxes
      peak := max m.peak boxes.length } := congrArg (Option.map _) hboxes
  exact ⟨_, _, hstep, rfl, rfl, sends_buildCommands padding m.bufferSize boxes⟩

end

/- The view is built while nothing is loaded and again when two neighbours and the parent of one of
   them are: the parent is not drawn. -/
def viewRun {D : Type} : List (Label D) :=
  [.build fun _ => 0] ++ (linkRun.map .world ++ [.build fun _ => 0])

theorem debug_view_exact_viewRun : ∃ m : DebugWorld _,
    (machine 16 Universe.galaxyType fun _ => none).exec { spatial := initial _ fun _ => none }
      viewRun = some m ∧ m.spatial.world.links 1 .parent = some 2 ∧ m.peak = 2 ∧
      ViewsLeaves 16 Universe.galaxyType m ∧ Sized m := by
  have hrun : ((machine 16 Universe.galaxyType fun _ => none).exec
      { spatial := initial _ fun _ => none } viewRun).map
        (fun m => (m.spatial.world.links 1 .parent, m.peak)) = some (some 2, 2) := by decide +kernel
  obtain ⟨m, hm, hview⟩ := Option.map_eq_some_iff.mp hrun
  exact ⟨m, hm, congrArg Prod.fst hview, congrArg Prod.snd hview,
    debug_view_exact (by decide) (Machine.reachable_of_exec rfl hm)⟩

end DebugWorld
end CosmicArchitect.DebugRender
