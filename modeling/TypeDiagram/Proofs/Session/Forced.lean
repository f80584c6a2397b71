import TypeDiagram.Proofs.Session.Postponement
import TypeDiagram.Proofs.Session.Quiescence

/-! # A forced layout forgets what came before

A layout that is forced takes the place of the pending frame, and makes all passes in flight stale.
While nobody acts, the view stays as it is until the forced pass settles, and that pass puts into it
what the service answers. The answer depends on the models, the sizes, the direction and the places
of pinned nodes, and on nothing else that happened before.
-/

namespace TypeDiagram.Session

open Diagram Layout

variable {α : Type}

/-- The diagrams show nodes of the same sizes in the same direction, and the same of them are
pinned, at the same places. -/
structure SameView (s s' : Session α) : Prop where
  sizes : ∀ id, s.sizeOf? id = s'.sizeOf? id
  direction : s.options.direction = s'.options.direction
  pinned : ∀ id ∈ s.nodes.map Node.id, id ∈ s.pinned ↔ id ∈ s'.pinned
  places : ∀ n ∈ s.nodes, ∀ n' ∈ s'.nodes, n.id = n'.id → n.id ∈ s.pinned → n.position = n'.position

theorem sizeOf?_congr {s s' : Session α} (h : s.nodes.map (fun n => (n.id, n.size)) =
    s'.nodes.map fun n => (n.id, n.size)) (id : String) : s.sizeOf? id = s'.sizeOf? id := by
  have hFind : ∀ t : Session α, t.sizeOf? id =
      ((t.nodes.map fun n => (n.id, n.size)).find? fun e => e.1 == id).map (·.2) := by
    intro t
    rw [List.find?_map, Option.map_map]
    rfl
  rw [hFind, hFind, h]

/-- The newest pass is in flight with the inputs that the first state shows, or it has put the given
nodes into the view. -/
structure Awaits (s : Session α) (placed : List (Node α)) (t : Session α) : Prop where
  pinned : t.pinned = s.pinned
  direction : t.options.direction = s.options.direction
  edges : t.edges = s.edges
  nodes : t.nodes = s.nodes ∧ s.capture t.passes ∈ t.inFlight ∨
    t.nodes = placed ∧ t.passes ∉ t.tokens

variable {s s' t : Session α} {placed : List (Node α)}

theorem Awaits.capture_eq (h : Awaits s placed t) (hNodes : t.nodes = s.nodes) (token : Nat) :
    t.capture token = s.capture token := by
  unfold capture
  rw [hNodes, h.edges, h.direction, h.pinned]

theorem awaits_layoutNow (s : Session α) (placed : List (Node α)) :
    Awaits s placed s.layoutNow where
  pinned := rfl
  direction := rfl
  edges := rfl
  nodes := .inl ⟨rfl, List.mem_append_right _ (List.mem_singleton_self _)⟩

theorem Awaits.of_same (h : Awaits s placed t) {u : Session α} (hStore : u.store = t.store)
    (hDirection : u.options.direction = t.options.direction) (hPasses : u.passes = t.passes)
    (hRunning : t.nodes = s.nodes → s.capture t.passes ∈ t.inFlight →
      s.capture t.passes ∈ u.inFlight)
    (hEnded : t.passes ∉ t.tokens → t.passes ∉ u.tokens) : Awaits s placed u where
  pinned := (congrArg Store.pinned hStore).trans h.pinned
  direction := hDirection.trans h.direction
  edges := (congrArg Store.edges hStore).trans h.edges
  nodes := by
    rw [show u.nodes = t.nodes from congrArg Store.nodes hStore, hPasses]
    exact h.nodes.imp (fun ⟨hNodes, hIn⟩ => ⟨hNodes, hRunning hNodes hIn⟩)
      fun ⟨hNodes, hOut⟩ => ⟨hNodes, hEnded hOut⟩

variable [Coordinate α]

/-- Nobody acts on the diagram: time passes, or a pass gets to run or is settled by the service that
draws in layers. -/
def Operation.Unattended (op : Operation α) : Prop := op.Quiet ∧ op.Bundled

/-- A layout is forced on the first state, and the diagram is left alone until it is idle in the
second one. -/
def ForcedInto (s t : Session α) : Prop :=
  ∃ quiet, (∀ op ∈ quiet, op.Unattended) ∧ t = s.layoutNow.run quiet ∧ t.state = .idle

variable {op : Operation α}

theorem Operation.Quiet.plain (h : op.Quiet) : op.Plain := by
  cases op with
  | setDeclarations ds => exact h.elim
  | _ => trivial

theorem plain_of_forced {ops quiet : List (Operation α)} (hPlain : ∀ op ∈ ops, op.Plain)
    (hQuiet : ∀ op ∈ quiet, op.Unattended) : ∀ op ∈ ops ++ .layoutNow :: quiet, op.Plain := by
  intro op hOp
  rcases List.mem_append.mp hOp with hOp | hOp
  · exact hPlain op hOp
  · rcases List.mem_cons.mp hOp with rfl | hOp
    · trivial
    · exact (hQuiet op hOp).1.plain

theorem ForcedInto.run_eq {start : Session α} {ops : List (Operation α)}
    (h : ForcedInto (start.run ops) t) :
    ∃ quiet, (∀ op ∈ quiet, op.Unattended) ∧ start.run (ops ++ .layoutNow :: quiet) = t := by
  obtain ⟨quiet, hQuiet, hForced, _⟩ := h
  exact ⟨quiet, hQuiet, (run_append _ _ _).trans hForced.symm⟩

theorem ForcedInto.idle (h : ForcedInto s t) : t.state = .idle := by
  obtain ⟨_, _, _, hIdle⟩ := h
  exact hIdle

variable [LawfulMagnitude α]

/-! ## While the forced pass is waited for -/

/-- The pass that is applied is the one that was waited for, and it puts the nodes into the view. -/
theorem Awaits.of_applies (h : Awaits s placed t) (hLedger : Ledger t)
    (hWorks : Works t op (t.step op)) (hDistinct : (s.nodes.map Node.id).Nodup)
    (hPlaced : (s.capture t.passes).result layeredService t.layoutOptions = .ok placed)
    {p : Pass α} {answer : List (Node α)} (hApplies : Applies t op p answer) (hLayered : op.Layered)
    (hPasses : (t.step op).passes = t.passes) : Awaits s placed (t.step op) := by
  rcases h.nodes with ⟨hNodes, hIn⟩ | ⟨_, hOut⟩
  · have hPass : p = s.capture t.passes := by
      have hFind := hApplies.inFlight
      rw [hApplies.newest, show t.passes = (s.capture t.passes).token from rfl,
        hLedger.find?_token hIn] at hFind
      exact (Option.some.inj hFind).symm
    have hAnswer : answer = placed := by
      have hResult := hApplies.layered hLayered
      rw [hPass, hPlaced] at hResult
      exact (Except.ok.inj hResult).symm
    have hDirection : (t.step op).options.direction = t.options.direction := by
      rw [show (t.step op).options.direction = _ from congrArg Desk.direction hApplies.desk,
        commit_desk]
      rfl
    have hEnded : t.passes ∉ (t.step op).tokens :=
      not_mem_tokens_step hWorks (Nat.le_refl _) (.inr (hApplies.newest ▸ hApplies.ends))
    rw [hPass, hAnswer, ← h.capture_eq hNodes] at hApplies
    rw [← h.capture_eq hNodes] at hPlaced
    exact {
      pinned := hApplies.adjusts.pinned_eq.trans h.pinned
      direction := hDirection.trans h.direction
      edges := hApplies.adjusts.edges.trans h.edges
      nodes := .inr ⟨hApplies.adjusts.nodes.trans (map_merged_capture (hNodes ▸ hDistinct) hPlaced),
        hPasses ▸ hEnded⟩ }
  · exact absurd (hApplies.newest ▸ hApplies.token_mem) hOut

variable [LawfulCoordinate α]

theorem Awaits.step (h : Awaits s placed t) (hReachable : Reachable t)
    (hPending : t.scheduler.pending = false) (hDistinct : (s.nodes.map Node.id).Nodup)
    (hPlaced : (s.capture t.passes).result layeredService t.layoutOptions = .ok placed)
    (hOp : op.Unattended) (hFails : ¬ Fails t op) : Awaits s placed (t.step op) := by
  obtain ⟨hQuiet, hBundled⟩ := hOp
  have hWorks := hReachable.works op
  have hPasses : (t.step op).passes = t.passes := by
    rw [(hReachable.quiet_step hQuiet).2, hPending]
    rfl
  have hEnded : t.passes ∉ t.tokens → t.passes ∉ (t.step op).tokens := fun hOut =>
    not_mem_tokens_step hWorks (Nat.le_refl _) (.inl hOut)
  cases op with
  | frame =>
    have hSingle : t.scheduler.Single := by
      obtain ⟨options, layoutOptions, ops, rfl⟩ := hReachable
      exact single_run options layoutOptions ops
    rcases frame_cases hSingle with ⟨clock, hFrame⟩ | ⟨hWas, _⟩
    · rw [Session.step, hFrame]
      exact h.of_same rfl rfl rfl (fun _ hIn => hIn) id
    · rw [hPending] at hWas
      cases hWas
  | begin token =>
    refine h.of_same rfl rfl rfl (fun hNodes hIn => List.mem_map.mpr ⟨_, hIn, ?_⟩) hEnded
    by_cases hToken : t.passes = token
    · subst hToken
      rw [h.capture_eq hNodes, ite_self]
    · exact if_neg (mt beq_iff_eq.mp hToken)
  | settle token service =>
    rcases settle_cases t token service with hIdles | ⟨p, answer, hApplies⟩
    · refine h.of_same hIdles.store (congrArg Desk.direction hIdles.desk) hPasses ?_ hEnded
      intro _ hIn
      rw [show (t.step (.settle token service)).inFlight = _ from
        congrArg Desk.inFlight hIdles.desk]
      exact List.mem_filter.mpr ⟨hIn, bne_iff_ne.mpr (hIdles.ne_of_newest rfl hFails hIn rfl)⟩
    · have hLedger : Ledger t := by
        obtain ⟨options, layoutOptions, ops, rfl⟩ := hReachable
        exact ledger_run options layoutOptions ops
      exact h.of_applies hLedger hWorks hDistinct hPlaced hApplies hQuiet hPasses
  | _ => exact hQuiet.elim

/-! ## Runs -/

variable (options : ViewOptions) (layoutOptions : LayoutOptions) {ops : List (Operation α)}

theorem awaits_run (hPlain : ∀ op ∈ ops, op.Plain)
    (hPlaced : ∀ token, (((create options layoutOptions).run ops).capture token).result
      layeredService layoutOptions = .ok placed)
    {quiet : List (Operation α)} (hQuiet : ∀ op ∈ quiet, op.Unattended) :
    Awaits ((create options layoutOptions).run ops) placed
      ((create options layoutOptions).run (ops ++ .layoutNow :: quiet)) := by
  induction quiet using List.reverseRecOn with
  | nil =>
    rw [run_concat]
    exact awaits_layoutNow _ placed
  | append_singleton quiet op ih =>
    have hEarlier : ∀ other ∈ quiet, other.Unattended := fun other hIn =>
      hQuiet other (List.mem_append_left _ hIn)
    have hOp := hQuiet op (by simp)
    have hNow : Reachable ((create options layoutOptions).run (ops ++ [.layoutNow])) :=
      ⟨options, layoutOptions, _, rfl⟩
    have hPending :
        ((create options layoutOptions).run (ops ++ .layoutNow :: quiet)).scheduler.pending =
          false := by
      rw [List.append_cons, run_append, (hNow.quiet_run fun other hIn => (hEarlier other hIn).1).1,
        run_concat]
      rfl
    rw [← List.cons_append, ← List.append_assoc, run_concat]
    refine (ih hEarlier).step ⟨options, layoutOptions, _, rfl⟩ hPending
      (mirrors_run options layoutOptions ops).nodup_ids ?_ hOp
      (not_fails_run options layoutOptions (plain_of_forced hPlain hEarlier) hOp.2)
    rw [run_layoutOptions]
    exact hPlaced _

structure Arranges (layoutOptions : LayoutOptions) (s t : Session α) : Prop where
  nodes : arrange layeredService layoutOptions s.nodes s.edges s.options.direction s.pinned =
    .ok t.nodes
  edges : t.edges = s.edges
  pinned : t.pinned = s.pinned
  direction : t.options.direction = s.options.direction

theorem ForcedInto.arranges (hPlain : ∀ op ∈ ops, op.Plain)
    (h : ForcedInto ((create options layoutOptions).run ops) t) :
    Arranges layoutOptions ((create options layoutOptions).run ops) t := by
  obtain ⟨quiet, hQuiet, hRun⟩ := h.run_eq
  obtain ⟨placed, hPlaced⟩ := (drawable_run options layoutOptions hPlain).arranges layoutOptions
    ((create options layoutOptions).run ops).options.direction
    ((create options layoutOptions).run ops).pinned
  have hAwaits := awaits_run options layoutOptions hPlain (fun _ => hPlaced) hQuiet
  rw [hRun] at hAwaits
  rcases hAwaits.nodes with ⟨_, hIn⟩ | ⟨hNodes, _⟩
  · rw [((state_eq_idle_iff t).mp h.idle).2] at hIn
    cases hIn
  · exact ⟨hPlaced.trans (congrArg Except.ok hNodes.symm), hAwaits.edges, hAwaits.pinned,
      hAwaits.direction⟩

omit [Coordinate α] [LawfulMagnitude α] [LawfulCoordinate α] in
theorem SameView.alike {built : List Model} {past past' : String → Prop}
    (hMirrors : Mirrors built past s) (hMirrors' : Mirrors built past' s') (h : SameView s s') :
    List.Forall₂ (Node.Alike s.pinned s'.pinned) s.nodes s'.nodes := by
  have hZip : ∀ {β : Type} {f : Node α → β}, s.nodes.map f = s'.nodes.map f →
      ∀ {n n'}, (n, n') ∈ s.nodes.zip s'.nodes → f n = f n' := by
    intro β f hSame
    rw [← List.forall₂_eq_eq_eq, List.forall₂_map_left_iff, List.forall₂_map_right_iff] at hSame
    exact (List.forall₂_iff_zip.mp hSame).2
  have hIds := hMirrors.ids.trans hMirrors'.ids.symm
  have hModels := hMirrors.nodeModels.trans hMirrors'.nodeModels.symm
  have hLength : s.nodes.length = s'.nodes.length := by
    rw [← List.length_map Node.id, hIds, List.length_map]
  refine List.forall₂_iff_zip.mpr ⟨hLength, fun {n n'} hPair => ?_⟩
  obtain ⟨hn, hn'⟩ := List.of_mem_zip hPair
  have hId := hZip hIds hPair
  have hSize := h.sizes n.id
  unfold sizeOf? at hSize
  rw [node?_of_mem hMirrors.nodup_ids hn, hId, node?_of_mem hMirrors'.nodup_ids hn'] at hSize
  exact ⟨hId, hZip hModels hPair, Option.some.inj hSize,
    hId ▸ h.pinned n.id (List.mem_map_of_mem hn), h.places n hn n' hn' hId⟩

omit [LawfulMagnitude α] [LawfulCoordinate α] in
theorem Arranges.nodes_eq {layoutOptions : LayoutOptions} {t' : Session α}
    (h : Arranges layoutOptions s t) (h' : Arranges layoutOptions s' t')
    (hDistinct : (s.nodes.map Node.id).Nodup) (hEdges : s.edges = s'.edges)
    (hDirection : s.options.direction = s'.options.direction)
    (hAlike : List.Forall₂ (Node.Alike s.pinned s'.pinned) s.nodes s'.nodes) :
    t.nodes = t'.nodes := by
  have hNodes := h.nodes
  rw [arrange_congr hDistinct hAlike, hEdges, hDirection, h'.nodes] at hNodes
  exact (Except.ok.inj hNodes).symm

omit [LawfulMagnitude α] [LawfulCoordinate α] in
theorem runUntilIdle_unattended (fuel : Nat) (s : Session α) :
    ∃ quiet, (∀ op ∈ quiet, op.Unattended) ∧
      runUntilIdle layeredService fuel s = s.run quiet := by
  induction fuel generalizing s with
  | zero => exact ⟨[], fun _ hOp => absurd hOp List.not_mem_nil, rfl⟩
  | succ fuel ih =>
    by_cases hIdle : s.state = .idle
    · exact ⟨[], fun _ hOp => absurd hOp List.not_mem_nil, runUntilIdle_of_idle _ hIdle _⟩
    · obtain ⟨quiet, hQuiet, hRun⟩ := ih (s.run (s.nextTurn layeredService))
      have hTurn : ∀ op ∈ s.nextTurn layeredService, op.Unattended := by
        intro op hOp
        refine ⟨(turn_nextTurn fun _ _ _ hAnswer => hAnswer).1 op hOp, ?_⟩
        unfold nextTurn at hOp
        split at hOp
        · rw [List.mem_singleton.mp hOp]
          trivial
        · obtain ⟨token, _, rfl⟩ := List.mem_map.mp hOp
          rfl
      refine ⟨s.nextTurn layeredService ++ quiet, fun op hOp => ?_, ?_⟩
      · exact (List.mem_append.mp hOp).elim (hTurn op) (hQuiet op)
      · rw [runUntilIdle_succ _ hIdle, hRun, run_append]

theorem forcedInto_layoutSettled (h : Reachable s) :
    ForcedInto s (s.layoutSettled layeredService) := by
  obtain ⟨quiet, hQuiet, hRun⟩ := runUntilIdle_unattended idleLimit s.layoutNow
  refine ⟨quiet, hQuiet, hRun, ?_⟩
  have hLayered : ∀ token, (Operation.settle token (layeredService (α := α))).Layered :=
    fun _ _ _ hAnswer => hAnswer
  obtain ⟨turns, _, _, hIdle, hRuns⟩ := (h.step .layoutNow).runUntilIdle_eq hLayered
  have hFuel : turnsLeft s.layoutNow ≤ idleLimit := Nat.le_trans (turnsLeft_le _) (by decide)
  rw [layoutSettled, waitIdle, show runUntilIdle _ _ s.layoutNow = _ from hRuns idleLimit hFuel]
  exact hIdle

/-- Two diagrams that show the same models, in the same sizes and direction and with the same nodes
pinned at the same places, show the same after a layout is forced on both, whatever happened before
and in whichever order stale passes settle. A second one changes nothing. -/
theorem forced_layout_forgets_history (options options' : ViewOptions)
    (layoutOptions : LayoutOptions) (ops ops' : List (Operation α))
    (hPlain : ∀ op ∈ ops, op.Plain) (hPlain' : ∀ op ∈ ops', op.Plain)
    (hSource : lastModels ops = lastModels ops')
    (hView : SameView ((create options layoutOptions).run ops)
      ((create options' layoutOptions).run ops')) :
    let s := (create options layoutOptions).run ops
    let s' := (create options' layoutOptions).run ops'
    ForcedInto s (s.layoutSettled layeredService) ∧
      ForcedInto s' (s'.layoutSettled layeredService) ∧
      ∀ t t', ForcedInto s t → ForcedInto s' t' →
        t.nodes = t'.nodes ∧ t.edges = t'.edges ∧
          ∀ u, ForcedInto t u → u.nodes = t.nodes ∧ u.edges = t.edges := by
  intro s s'
  have hMirrors : Mirrors _ _ s := mirrors_run options layoutOptions ops
  have hMirrors' : Mirrors _ _ s' := mirrors_run options' layoutOptions ops'
  rw [← hSource] at hMirrors'
  have hEdges : s.edges = s'.edges := hMirrors.edges.trans hMirrors'.edges.symm
  refine ⟨forcedInto_layoutSettled ⟨_, _, ops, rfl⟩, forcedInto_layoutSettled ⟨_, _, ops', rfl⟩,
    fun t t' hForced hForced' => ?_⟩
  have hFirst : Arranges layoutOptions s t := hForced.arranges options layoutOptions hPlain
  have hSecond : Arranges layoutOptions s' t' := hForced'.arranges options' layoutOptions hPlain'
  refine ⟨hFirst.nodes_eq hSecond hMirrors.nodup_ids hEdges hView.direction
    (hView.alike hMirrors hMirrors'), hFirst.edges.trans (hEdges.trans hSecond.edges.symm),
    fun u hAgain => ?_⟩
  have hThen : Arranges layoutOptions t u := by
    obtain ⟨quiet, hQuiet, hRun⟩ := hForced.run_eq
    rw [← hRun] at hAgain ⊢
    exact hAgain.arranges options layoutOptions (plain_of_forced hPlain hQuiet)
  have hAlike : List.Forall₂ (Node.Alike s.pinned t.pinned) s.nodes t.nodes := by
    rw [hFirst.pinned]
    exact alike_of_arrange hMirrors.nodup_ids hFirst.nodes
  exact ⟨(hFirst.nodes_eq hThen hMirrors.nodup_ids hFirst.edges.symm hFirst.direction.symm
    hAlike).symm, hThen.edges⟩

/-- In the first diagram a pass is in flight and a frame is pending, and nothing was laid out yet.
In the second one the declarations were gone in between, and a node stands where an earlier pass
put it. -/
theorem forced_layout_forgets_detour :
    let ds : List Declaration := [⟨"A", [⟨"b", "B", .name⟩], 1⟩, ⟨"B", [], 4⟩]
    let declared : Operation Rat := .setDeclarations ⟨ds, by decide⟩
    let answer : Service Rat := fun _ => .ok [⟨some (.text "A"), some 7, some 7, none, none⟩]
    let s := (create ⟨.horizontal, true, .light, true⟩ .standard).run
      [declared, .measure "A" ⟨200, 80⟩, .frame, .move "B" ⟨3, 4⟩, .requestLayout]
    let s' := (create ⟨.vertical, false, .dark, true⟩ .standard).run
      [declared, .move "B" ⟨3, 4⟩, .layoutNow, .settle 1 answer, .toggleDirection,
        .setDeclarations ⟨[], List.nodup_nil⟩, declared, .measure "A" ⟨200, 80⟩]
    (∃ n ∈ s.nodes, ∃ n' ∈ s'.nodes, n.id = n'.id ∧ n.position ≠ n'.position) ∧
      s.tokens = [1] ∧ ∀ t t', ForcedInto s t → ForcedInto s' t' →
        t.nodes = t'.nodes ∧ t.edges = t'.edges ∧
          ∀ u, ForcedInto t u → u.nodes = t.nodes ∧ u.edges = t.edges := by
  intro ds declared answer s s'
  have hNames : ∀ d ∈ ds, '-' ∉ d.name.toList := by decide
  have hPlain : ∀ op ∈ [declared, .measure "A" ⟨200, 80⟩, .frame, .move "B" ⟨3, 4⟩,
      .requestLayout], op.Plain := by
    intro op hOp
    simp only [List.mem_cons, List.not_mem_nil, or_false] at hOp
    rcases hOp with rfl | rfl | rfl | rfl | rfl
    · exact hNames
    all_goals trivial
  have hPlain' : ∀ op ∈ [declared, .move "B" ⟨3, 4⟩, .layoutNow, .settle 1 answer,
      .toggleDirection, .setDeclarations ⟨[], List.nodup_nil⟩, declared,
      .measure "A" ⟨200, 80⟩], op.Plain := by
    intro op hOp
    simp only [List.mem_cons, List.not_mem_nil, or_false] at hOp
    rcases hOp with rfl | rfl | rfl | rfl | rfl | rfl | rfl | rfl
    · exact hNames
    · trivial
    · trivial
    · trivial
    · trivial
    · exact fun d hd => absurd hd List.not_mem_nil
    · exact hNames
    · trivial
  have hView : SameView s s' := by
    refine ⟨sizeOf?_congr ?_, ?_, ?_, ?_⟩ <;> decide +kernel
  exact ⟨by decide +kernel, by decide +kernel,
    (forced_layout_forgets_history _ _ .standard _ _ hPlain hPlain' rfl hView).2.2⟩

end TypeDiagram.Session
