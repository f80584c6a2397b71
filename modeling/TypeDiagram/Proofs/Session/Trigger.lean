import TypeDiagram.Proofs.Session.Freshness
import TypeDiagram.Proofs.Session.Recall

/-! # When a layout is asked for

A step that commits a view compares it with the caches. These mirror the view before, so the step
asks for a layout exactly if the views differ in their number of edges, in their nodes or in the
size of a node. All that ask before a frame share the one pass that it starts.
-/

namespace TypeDiagram.Session

open Diagram

variable {α : Type}

/-- The size of the committed node with the given id, which is unknown if the node was not measured.
-/
def sizeOf? (s : Session α) (id : String) : Option (Option (Size α)) := (s.node? id).map Node.size

theorem node?_of_mem {s : Session α} (h : (s.nodes.map Node.id).Nodup) {n : Node α}
    (hn : n ∈ s.nodes) : s.node? n.id = some n := find?_eq_some_of_nodup_map h hn

theorem node?_mem {s : Session α} {id : String} {n : Node α} (h : s.node? id = some n) :
    n ∈ s.nodes ∧ n.id = id :=
  ⟨List.mem_of_find?_eq_some h, by simpa using List.find?_some h⟩

theorem node?_eq_none_iff (s : Session α) (id : String) :
    s.node? id = none ↔ id ∉ s.nodes.map Node.id := by
  rw [← node?_isSome_iff, Option.not_isSome_iff_eq_none]

theorem sizeOf?_isSome_iff (s : Session α) (id : String) :
    (s.sizeOf? id).isSome = true ↔ id ∈ s.nodes.map Node.id := by
  rw [sizeOf?, Option.isSome_map, node?_isSome_iff]

variable [Coordinate α]

/-- The views have the same number of edges and the same nodes, of the same sizes. -/
structure Agrees (s t : Session α) : Prop where
  edges : t.edges.length = s.edges.length
  sizes : ∀ id, Option.Rel (fun a b => sameSize a b = true) (s.sizeOf? id) (t.sizeOf? id)

def Commits (s : Session α) : Operation α → Prop
  | .setSource _ | .setDeclarations _ => True
  | .measure id size => (s.measure id size).2 = true
  | .move id position => (s.move id position).2 = true
  | .settle token service => ∃ p placed, Applies s (.settle token service) p placed
  | _ => False

/-- The step asks for the start of a pass, whatever is pending. -/
def Asks (s : Session α) (op : Operation α) : Prop :=
  ∀ f, (step { s with scheduler := f } op).scheduler = f.request .startLayout

/-- The step asks for nothing and gives nothing up, whatever is pending. -/
def Spares (s : Session α) (op : Operation α) : Prop :=
  ∀ f, (step { s with scheduler := f } op).scheduler = f

def AskedDuring (s : Session α) (ops : List (Operation α)) : Prop :=
  ¬ Throughout (fun s op => ¬ Asks s op) s ops

def Operation.waits : Operation α → Bool
  | .frame | .layoutNow | .close => false
  | _ => true

variable {built : List Model} {past : String → Prop} {s t : Session α} {op : Operation α}

/-! ## What the caches tell of the view -/

theorem Agrees.mem_ids_iff (h : Agrees s t) (id : String) :
    id ∈ s.nodes.map Node.id ↔ id ∈ t.nodes.map Node.id := by
  have hRel := h.sizes id
  rw [← sizeOf?_isSome_iff, ← sizeOf?_isSome_iff]
  cases hOld : s.sizeOf? id <;> cases hNew : t.sizeOf? id <;> rw [hOld, hNew] at hRel
  · cases hRel
  · cases hRel
  · rfl

theorem Agrees.exists_same (h : Agrees s t) (hNodup : (t.nodes.map Node.id).Nodup) {n : Node α}
    (hn : n ∈ t.nodes) : ∃ old ∈ s.nodes, old.id = n.id ∧ sameSize old.size n.size = true := by
  have hRel := h.sizes n.id
  unfold sizeOf? at hRel
  rw [node?_of_mem hNodup hn] at hRel
  cases hOld : s.node? n.id with
  | none =>
    rw [hOld] at hRel
    cases hRel
  | some old =>
    rw [hOld] at hRel
    obtain ⟨hIn, hId⟩ := node?_mem hOld
    cases hRel with
    | some hSame => exact ⟨old, hIn, hId, hSame⟩

theorem agrees_of_sizes (hNodup : (t.nodes.map Node.id).Nodup)
    (hEdges : t.edges.length = s.edges.length)
    (hIds : ∀ id, id ∈ s.nodes.map Node.id ↔ id ∈ t.nodes.map Node.id)
    (hSizes : ∀ old ∈ s.nodes, ∀ n ∈ t.nodes, old.id = n.id → sameSize old.size n.size = true) :
    Agrees s t := by
  refine ⟨hEdges, fun id => ?_⟩
  unfold sizeOf?
  cases hOld : s.node? id with
  | none =>
    rw [(node?_eq_none_iff t id).mpr (mt (hIds id).mpr ((node?_eq_none_iff s id).mp hOld))]
    exact .none
  | some old =>
    obtain ⟨hIn, rfl⟩ := node?_mem hOld
    obtain ⟨n, hn, hId⟩ := List.mem_map.mp ((hIds old.id).mp (List.mem_map_of_mem hIn))
    rw [← hId, node?_of_mem hNodup hn]
    exact .some (hSizes old hIn n hn hId.symm)

/-- A view needs no layout exactly if it agrees with the one that the caches mirror. -/
theorem Mirrors.not_needsLayout_iff_agrees (h : Mirrors built past s)
    (hNodup : (t.nodes.map Node.id).Nodup) :
    needsLayout { s with nodes := t.nodes, edges := t.edges } = false ↔ Agrees s t := by
  constructor
  · intro hNeeds
    obtain ⟨hEdges, hIds, hSizes⟩ := h.same_of_not_needsLayout hNodup hNeeds
    exact agrees_of_sizes hNodup hEdges (fun id => hIds.mem_iff) hSizes
  · intro hAgrees
    have hIds : (t.nodes.map Node.id).Perm (s.nodes.map Node.id) :=
      (List.perm_ext_iff_of_nodup hNodup h.nodup_ids).mpr fun id => (hAgrees.mem_ids_iff id).symm
    have hLength : t.nodes.length = s.metrics.size := by
      have hSame := hIds.length_eq
      rw [List.length_map, List.length_map] at hSame
      rw [hSame, OrderedMap.size, h.metrics, List.length_map]
    refine (needsLayout_eq_false_iff _).mpr
      ⟨hAgrees.edges.trans h.edgeCount.symm, hLength, fun n hn => ?_⟩
    obtain ⟨old, hOld, hId, hSame⟩ := hAgrees.exists_same hNodup hn
    exact ⟨Metrics.of old, hId ▸ h.get?_metrics hOld, hSame⟩

theorem Mirrors.agrees_of_models? (h : Mirrors built past s) (hOp : op.models? = some built) :
    Agrees s (s.step op) := by
  have hNodes : (s.step op).nodes = (nodesOf built).map s.restored := by
    rw [step_of_models?_eq_some hOp, setModels_nodes]
  have hIds : (s.step op).nodes.map Node.id = s.nodes.map Node.id := by
    rw [hNodes, ids_restored, h.ids]
  have hEdges : (s.step op).edges.length = s.edges.length := by
    rw [step_of_models?_eq_some hOp, setModels_edges, h.edges]
  apply agrees_of_sizes (hIds ▸ h.nodup_ids) hEdges fun id => by rw [hIds]
  intro old hOld n hn hId
  rw [hNodes] at hn
  obtain ⟨blank, hBlank, rfl⟩ := List.mem_map.mp hn
  obtain ⟨m, _, rfl⟩ := List.mem_map.mp hBlank
  rw [restored_id] at hId
  have hId : old.id = m.id := hId
  have hMetrics := metrics_restored s m
  rw [← hId, h.remembered hOld, hId] at hMetrics
  have hSize : (s.restored ⟨m.id, m, .offScreen, none⟩).size = old.size :=
    congrArg Metrics.size hMetrics
  rw [hSize]
  exact sameSize_refl old.size

theorem Adjusts.agrees {f : Node α → Node α} {pins : List String} (h : Adjusts s op f pins)
    (hNodup : (s.nodes.map Node.id).Nodup)
    (hSizes : ∀ n ∈ s.nodes, sameSize n.size (f n).size = true) : Agrees s (s.step op) := by
  have hIds : (s.step op).nodes.map Node.id = s.nodes.map Node.id := by rw [h.nodes, h.ids]
  apply agrees_of_sizes (hIds ▸ hNodup) (by rw [h.edges]) fun id => by rw [hIds]
  intro old hOld n hn hId
  rw [h.nodes] at hn
  obtain ⟨m, hm, rfl⟩ := List.mem_map.mp hn
  rw [h.id] at hId
  rw [List.inj_on_of_nodup_map hNodup hOld hm hId]
  exact hSizes m hm

/-! ## Steps -/

theorem schedules_of_desk {nodes : List (Node α)} {edges : List Edge}
    (hScheduler : t.scheduler = (s.commit nodes edges).desk.scheduler)
    (hPasses : t.passes = (s.commit nodes edges).desk.passes) :
    t.scheduler = (if needsLayout { s with nodes := nodes, edges := edges } then
      s.scheduler.request .startLayout else s.scheduler) ∧ t.passes = s.passes := by
  rw [commit_desk] at hScheduler hPasses
  exact ⟨hScheduler, hPasses⟩

theorem setModels_schedules (s : Session α) (models : List Model)
    (f : FrameScheduler Nat FrameTask) :
    (setModels { s with scheduler := f } models).scheduler =
        (if needsLayout { s with
            nodes := (s.setModels models).nodes
            edges := (s.setModels models).edges } then
          f.request .startLayout else f) ∧
      (setModels { s with scheduler := f } models).passes = s.passes := by
  have hDesk := setModels_desk { s with scheduler := f } models
  rw [setModels_nodes, setModels_edges]
  exact schedules_of_desk (congrArg Desk.scheduler hDesk) (congrArg Desk.passes hDesk)

/-- Whether a step that commits a view asks for a layout does not depend on what is pending. -/
theorem Commits.schedules (h : Commits s op) (f : FrameScheduler Nat FrameTask) :
    (step { s with scheduler := f } op).scheduler =
        (if needsLayout { s with nodes := (s.step op).nodes, edges := (s.step op).edges } then
          f.request .startLayout else f) ∧
      (step { s with scheduler := f } op).passes = s.passes := by
  cases op with
  | setSource source | setDeclarations ds => exact setModels_schedules s _ f
  | measure id size =>
    have hIn := (measure_snd_iff s id size).mp h
    rw [(measure_adjusts hIn size).nodes, (measure_adjusts hIn size).edges]
    have hDesk := measure_desk (s := { s with scheduler := f }) hIn size
    exact schedules_of_desk (congrArg Desk.scheduler hDesk) (congrArg Desk.passes hDesk)
  | move id position =>
    have hIn := (move_snd_iff s id position).mp h
    rw [(move_adjusts hIn position).nodes, (move_adjusts hIn position).edges]
    have hDesk := move_desk (s := { s with scheduler := f }) hIn position
    exact schedules_of_desk (congrArg Desk.scheduler hDesk) (congrArg Desk.passes hDesk)
  | settle token service =>
    obtain ⟨p, placed, hApplies⟩ := h
    rw [hApplies.adjusts.nodes, hApplies.adjusts.edges]
    have hSame : Applies { s with scheduler := f } (.settle token service) p placed :=
      ⟨hApplies.settles, hApplies.inFlight, hApplies.newest⟩
    exact schedules_of_desk (congrArg Desk.scheduler hSame.desk)
      (congrArg Desk.passes hSame.desk)
  | noticeViewport | toggleAutoFit | toggleDirection | requestLayout | layoutNow | frame
  | begin token | cancel token | close => exact h.elim

theorem not_asks_of_spares (h : Spares s op) : ¬ Asks s op := by
  intro hAsks
  -- A scheduler that waits for nothing tells the two apart.
  have hSame := congrArg FrameScheduler.pending ((hAsks (.start 1 1 0)).symm.trans (h _))
  cases hSame

theorem Commits.asks_of_needsLayout (h : Commits s op)
    (hNeeds : needsLayout
      { s with nodes := (s.step op).nodes, edges := (s.step op).edges } = true) : Asks s op :=
  fun f => by rw [(h.schedules f).1, if_pos hNeeds]

theorem Commits.spares_of_not_needsLayout (h : Commits s op)
    (hNeeds : needsLayout
      { s with nodes := (s.step op).nodes, edges := (s.step op).edges } = false) : Spares s op :=
  fun f => by rw [(h.schedules f).1, hNeeds, if_neg Bool.false_ne_true]

theorem Commits.asks_or_spares (h : Commits s op) : Asks s op ∨ Spares s op := by
  cases hNeeds : needsLayout { s with nodes := (s.step op).nodes, edges := (s.step op).edges } with
  | true => exact .inl (h.asks_of_needsLayout hNeeds)
  | false => exact .inr (h.spares_of_not_needsLayout hNeeds)

theorem Commits.spares_iff (h : Commits s op) (hMirrors : Mirrors built past s)
    (hNodup : ((s.step op).nodes.map Node.id).Nodup) : Spares s op ↔ Agrees s (s.step op) := by
  rw [← hMirrors.not_needsLayout_iff_agrees hNodup]
  constructor
  · intro hSpares
    by_contra hNeeds
    exact not_asks_of_spares hSpares (h.asks_of_needsLayout (Bool.not_eq_false _ ▸ hNeeds))
  · exact h.spares_of_not_needsLayout

theorem Commits.asks_iff (h : Commits s op) (hMirrors : Mirrors built past s)
    (hNodup : ((s.step op).nodes.map Node.id).Nodup) : Asks s op ↔ ¬ Agrees s (s.step op) := by
  rw [← h.spares_iff hMirrors hNodup]
  exact ⟨fun hAsks hSpares => not_asks_of_spares hSpares hAsks, h.asks_or_spares.resolve_right⟩

theorem spares_measure_of_not_mem {id : String} (h : id ∉ s.nodes.map Node.id) (size : Size α) :
    Spares s (.measure id size) := fun f => by
  rw [step, step_measure_of_not_mem (s := { s with scheduler := f }) h]

theorem spares_move_of_not_mem {id : String} (h : id ∉ s.nodes.map Node.id)
    (position : Position α) : Spares s (.move id position) := fun f => by
  rw [step, step_move_of_not_mem (s := { s with scheduler := f }) h]

theorem idles_of_not_commits {token : Nat} {service : Service α}
    (h : ¬ Commits s (.settle token service)) (f : FrameScheduler Nat FrameTask) :
    Idles { s with scheduler := f } token service
      (step { s with scheduler := f } (.settle token service)) := by
  rcases settle_cases { s with scheduler := f } token service with hIdle | ⟨p, placed, hApplies⟩
  · exact hIdle
  · exact absurd ⟨p, placed, hApplies.settles, hApplies.inFlight, hApplies.newest⟩ h

/-- A step that neither starts a pass nor gives one up asks for a layout or spares the scheduler. -/
theorem step_of_waits (hOp : op.waits = true) (s : Session α) :
    (Asks s op ∨ Spares s op) ∧ (s.step op).passes = s.passes := by
  by_cases hCommits : Commits s op
  · exact ⟨hCommits.asks_or_spares, (hCommits.schedules s.scheduler).2⟩
  cases op with
  | setSource source | setDeclarations ds => exact absurd trivial hCommits
  | measure id size =>
    have hOut : id ∉ s.nodes.map Node.id := mt (measure_snd_iff s id size).mpr hCommits
    exact ⟨.inr (spares_measure_of_not_mem hOut size), by rw [step, step_measure_of_not_mem hOut]⟩
  | move id position =>
    have hOut : id ∉ s.nodes.map Node.id := mt (move_snd_iff s id position).mpr hCommits
    exact ⟨.inr (spares_move_of_not_mem hOut position), by rw [step, step_move_of_not_mem hOut]⟩
  | settle token service =>
    have hIdle := idles_of_not_commits hCommits
    exact ⟨.inr fun f => congrArg Desk.scheduler (hIdle f).desk,
      congrArg Desk.passes (hIdle s.scheduler).desk⟩
  | toggleAutoFit | toggleDirection | requestLayout => exact ⟨.inl fun _ => rfl, rfl⟩
  | noticeViewport | begin token | cancel token => exact ⟨.inr fun _ => rfl, rfl⟩
  | layoutNow | frame | close => cases hOp

theorem commits_of_models? {models : List Model} (hOp : op.models? = some models)
    (s : Session α) : Commits s op := by
  cases op with
  | setSource source | setDeclarations ds => exact trivial
  | _ => cases hOp

theorem Mirrors.spares_of_models? (h : Mirrors built past s) (hOp : op.models? = some built) :
    Spares s op := by
  have hNodup : ((s.step op).nodes.map Node.id).Nodup := by
    rw [step_of_models?_eq_some hOp, setModels_nodes, ids_restored]
    exact h.distinct
  exact ((commits_of_models? hOp s).spares_iff h hNodup).mpr (h.agrees_of_models? hOp)

theorem Mirrors.spares_of_adjusts (h : Mirrors built past s) (hCommits : Commits s op)
    {f : Node α → Node α} {pins : List String} (hAdjusts : Adjusts s op f pins)
    (hSizes : ∀ n ∈ s.nodes, sameSize n.size (f n).size = true) : Spares s op := by
  have hNodup : ((s.step op).nodes.map Node.id).Nodup := by
    rw [hAdjusts.nodes, hAdjusts.ids]
    exact h.nodup_ids
  exact (hCommits.spares_iff h hNodup).mpr (hAdjusts.agrees h.nodup_ids hSizes)

theorem Mirrors.spares_measure (h : Mirrors built past s) {id : String} {size : Size α}
    (hSame : ∀ n ∈ s.nodes, n.id = id → sameSize n.size (some size) = true) :
    Spares s (.measure id size) := by
  by_cases hIn : id ∈ s.nodes.map Node.id
  · have hCommits : Commits s (.measure id size) := (measure_snd_iff s id size).mpr hIn
    apply h.spares_of_adjusts hCommits (measure_adjusts hIn size)
    intro n hn
    by_cases hId : n.id = id
    · rw [if_pos (beq_iff_eq.mpr hId)]
      exact hSame n hn hId
    · rw [if_neg (mt beq_iff_eq.mp hId)]
      exact sameSize_refl n.size
  · exact spares_measure_of_not_mem hIn size

theorem Mirrors.spares_move (h : Mirrors built past s) (id : String) (position : Position α) :
    Spares s (.move id position) := by
  by_cases hIn : id ∈ s.nodes.map Node.id
  · have hCommits : Commits s (.move id position) := (move_snd_iff s id position).mpr hIn
    apply h.spares_of_adjusts hCommits (move_adjusts hIn position)
    intro n _
    split <;> exact sameSize_refl n.size
  · exact spares_move_of_not_mem hIn position

theorem Asks.scheduler_eq (h : Asks s op) :
    (s.step op).scheduler = s.scheduler.request .startLayout := h s.scheduler

theorem Spares.scheduler_eq (h : Spares s op) : (s.step op).scheduler = s.scheduler := h s.scheduler

theorem pending_step_iff (hOp : op.waits = true) (s : Session α) :
    (s.step op).scheduler.pending = true ↔ s.scheduler.pending = true ∨ Asks s op := by
  rcases (step_of_waits hOp s).1 with hAsks | hSpares
  · rw [hAsks.scheduler_eq]
    exact iff_of_true rfl (.inr hAsks)
  · rw [hSpares.scheduler_eq, or_iff_left (not_asks_of_spares hSpares)]

theorem punctual_step (h : s.scheduler.Punctual) (hSingle : s.scheduler.Single)
    (op : Operation α) : (s.step op).scheduler.Punctual := by
  by_cases hOp : op.waits = true
  · rcases (step_of_waits hOp s).1 with hAsks | hSpares
    · exact hAsks.scheduler_eq ▸ h.request
    · exact hSpares.scheduler_eq ▸ h
  cases op with
  | layoutNow | close => exact h.cancel
  | frame =>
    have hLater : FrameScheduler.Punctual
        { s.scheduler with clock := s.scheduler.clock + s.scheduler.interval } :=
      ⟨h.resolution, fun due hDue => Nat.le_add_right_of_le (h.due due hDue)⟩
    rw [step, frame_eq h hSingle]
    cases s.scheduler.pending
    · exact hLater.cancel
    · exact hLater.cancel
  | _ => exact absurd rfl hOp

/-! ## Runs -/

theorem punctual_run (options : ViewOptions) (layoutOptions : LayoutOptions)
    (ops : List (Operation α)) :
    ((create options layoutOptions).run ops).scheduler.Punctual := by
  induction ops using List.reverseRecOn with
  | nil => exact ⟨Nat.one_pos, fun due hDue => nomatch hDue⟩
  | append_singleton ops op ih =>
    rw [run_concat]
    exact punctual_step ih (single_run options layoutOptions ops) op

theorem Asks.askedDuring (h : Asks s op) (ops : List (Operation α)) : AskedDuring s (op :: ops) :=
  fun hNone => hNone.1 h

theorem askedDuring_concat (s : Session α) (ops : List (Operation α)) (op : Operation α) :
    AskedDuring s (ops ++ [op]) ↔ AskedDuring s ops ∨ Asks (s.run ops) op := by
  rw [AskedDuring, throughout_concat, not_and_or, not_not]
  rfl

/-- While no pass is started and none is given up, a frame is pending as soon as a step asks for
one. -/
theorem run_of_waits {between : List (Operation α)} (h : ∀ op ∈ between, op.waits = true)
    (s : Session α) :
    (s.run between).passes = s.passes ∧
      ((s.run between).scheduler.pending = true ↔
        s.scheduler.pending = true ∨ AskedDuring s between) := by
  induction between using List.reverseRecOn with
  | nil =>
    have hNone : ¬ AskedDuring s [] := not_not.mpr trivial
    exact ⟨rfl, (or_iff_left hNone).symm⟩
  | append_singleton between op ih =>
    obtain ⟨hPasses, hPending⟩ := ih fun other hIn => h other (List.mem_append_left _ hIn)
    have hOp := h op (by simp)
    rw [run_concat, pending_step_iff hOp, hPending, askedDuring_concat, or_assoc]
    exact ⟨(step_of_waits hOp _).2.trans hPasses, Iff.rfl⟩

/-- A step that commits a view asks for a layout exactly if the view differs from the one before in
the number of edges, the nodes or their sizes. So the same models again, the same size again and a
move ask for none. However many steps asked since the last frame, the next one starts a single pass,
and it starts none if no step did. -/
theorem layout_asked_for_iff_view_differs (options : ViewOptions) (layoutOptions : LayoutOptions)
    (ops : List (Operation α)) :
    let s := (create options layoutOptions).run ops
    (∀ op, Commits s op → (Asks s op ↔ ¬ Agrees s (s.step op)) ∧
      (Spares s op ↔ Agrees s (s.step op))) ∧
    (∀ op, op.models? = some (lastModels ops) → Spares s op) ∧
    (∀ id size, (∀ n ∈ s.nodes, n.id = id → sameSize n.size (some size) = true) →
      Spares s (.measure id size)) ∧
    (∀ id position, Spares s (.move id position)) ∧
    ∀ between, (∀ op ∈ between, op.waits = true) →
      let t := s.run between
      t.passes = s.passes ∧ t.frame.scheduler.pending = false ∧
      (s.scheduler.pending = true ∨ AskedDuring s between →
        t.frame.passes = t.passes + 1 ∧
          t.frame.inFlight = t.inFlight ++ [t.capture (t.passes + 1)]) ∧
      (s.scheduler.pending = false → ¬ AskedDuring s between →
        t.frame.passes = t.passes ∧ t.frame.inFlight = t.inFlight) := by
  intro s
  have hMirrors := mirrors_run options layoutOptions ops
  have hNodup : ∀ op, ((s.step op).nodes.map Node.id).Nodup := fun op => by
    rw [← run_concat]
    exact (mirrors_run options layoutOptions (ops ++ [op])).nodup_ids
  refine ⟨fun op hCommits => ?_, fun op hOp => hMirrors.spares_of_models? hOp,
    fun id size hSame => hMirrors.spares_measure hSame, hMirrors.spares_move,
    fun between hBetween => ?_⟩
  · exact ⟨hCommits.asks_iff hMirrors (hNodup op), hCommits.spares_iff hMirrors (hNodup op)⟩
  · intro t
    obtain ⟨hPasses, hPending⟩ := run_of_waits hBetween s
    have hRun : t = (create options layoutOptions).run (ops ++ between) := (run_append _ _ _).symm
    obtain ⟨hAfter, hStarts, hRests⟩ := frame_starts (hRun ▸ punctual_run options layoutOptions _)
      (hRun ▸ single_run options layoutOptions _)
    refine ⟨hPasses, hAfter, fun hAsked => hStarts (hPending.mpr hAsked), fun hIdle hNone => ?_⟩
    apply hRests
    rw [Bool.eq_false_iff, ne_eq, hPending, hIdle, or_iff_right Bool.false_ne_true]
    exact hNone

/-- A node is measured larger and as large as before, and the view is turned, before one frame. -/
theorem one_pass_for_three_requests :
    let declared : Operation Rat := .setDeclarations ⟨[⟨"A", [], 1⟩], by decide⟩
    let start := create ⟨.horizontal, true, .light, true⟩ .standard
    let s := start.run [declared, .measure "A" ⟨200, 80⟩, .frame]
    let between := [.measure "A" ⟨300, 80⟩, .toggleDirection, .measure "A" ⟨200, 80⟩]
    Commits s (.measure "A" ⟨300, 80⟩) ∧ Asks s (.measure "A" ⟨300, 80⟩) ∧
      Spares s (.measure "A" ⟨200, 80⟩) ∧ Spares s declared ∧
      (∀ op ∈ between, op.waits = true) ∧ (s.run between).passes = 1 ∧
      (s.run between).frame.passes = 2 := by
  intro declared start s between
  let ops := [declared, .measure "A" ⟨200, 80⟩, .frame]
  obtain ⟨hCommitted, hBuilt, hMeasured, _, hFrames⟩ :=
    layout_asked_for_iff_view_differs ⟨.horizontal, true, .light, true⟩ .standard ops
  have hCommits : (s.measure "A" ⟨300, 80⟩).2 = true := by decide +kernel
  have hDiffers : ¬ Agrees s (s.step (.measure "A" ⟨300, 80⟩)) := by
    intro hAgrees
    have hRel := hAgrees.sizes "A"
    rw [show s.sizeOf? "A" = some (some ⟨200, 80⟩) by decide +kernel,
      show (s.step (.measure "A" ⟨300, 80⟩)).sizeOf? "A" = some (some ⟨300, 80⟩) by
        decide +kernel] at hRel
    cases hRel with
    | some hSame => exact absurd hSame (by decide)
  have hAsks : Asks s (.measure "A" ⟨300, 80⟩) :=
    (hCommitted (.measure "A" ⟨300, 80⟩) hCommits).1.mpr hDiffers
  have hSizes : ∀ n ∈ s.nodes, sameSize n.size (some ⟨200, 80⟩) = true := by decide +kernel
  have hWaits : ∀ op ∈ between, op.waits = true := by simp [between, Operation.waits]
  obtain ⟨hPasses, _, hStarts, _⟩ := hFrames between hWaits
  have hStarted : s.passes = 1 := by decide +kernel
  have hNow : (s.run between).passes = 1 := hPasses.trans hStarted
  have hAsked : AskedDuring s between := hAsks.askedDuring _
  obtain ⟨hNext, _⟩ := hStarts (.inr hAsked)
  exact ⟨hCommits, hAsks, hMeasured "A" _ fun n hn _ => hSizes n hn, hBuilt declared rfl, hWaits,
    hNow, hNext.trans (congrArg (· + 1) hNow)⟩

end TypeDiagram.Session
