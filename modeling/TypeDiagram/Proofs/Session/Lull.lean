import TypeDiagram.Proofs.Session.Position
import TypeDiagram.Proofs.Session.Trigger

/-! # While no pass is started

A step that changes the nodes, their sizes or the number of edges makes a frame pending, and only
the start of a pass or the end of the diagram takes a pending frame away. So between two moments
with no start in between, and no frame pending at the second, the view has kept all that a layout
depends on. An idle diagram shows what the pass that was applied last was started for, and where
that pass drew it.
-/

namespace TypeDiagram.Session

open Diagram Layout

variable {α : Type} [Coordinate α] {built : List Model} {past : String → Prop} {s t : Session α}
  {op : Operation α}

theorem agrees_of_store_eq (h : t.store = s.store) : Agrees s t := by
  have hNodes : t.nodes = s.nodes := congrArg Store.nodes h
  have hEdges : t.edges = s.edges := congrArg Store.edges h
  refine ⟨by rw [hEdges], fun id => ?_⟩
  rw [show t.sizeOf? id = s.sizeOf? id by rw [sizeOf?, node?, hNodes]; rfl]
  cases s.sizeOf? id with
  | none => exact .none
  | some size => exact .some (sameSize_refl size)

theorem Agrees.trans [LawfulCoordinate α] {u : Session α} (h : Agrees s t) (h' : Agrees t u) :
    Agrees s u := by
  refine ⟨h'.edges.trans h.edges, fun id => ?_⟩
  have hFirst := h.sizes id
  have hSecond := h'.sizes id
  generalize s.sizeOf? id = a, t.sizeOf? id = b, u.sizeOf? id = c at hFirst hSecond
  cases hFirst with
  | none => exact hSecond
  | some hSame =>
    cases hSecond with
    | some hNext => exact .some (sameSize_trans hSame hNext)

/-- A commit after which no frame is pending finds none pending, and keeps the nodes and sizes. -/
theorem agrees_of_commit (hMirrors : Mirrors built past s) (hNodup : (t.nodes.map Node.id).Nodup)
    (hScheduler : t.scheduler = (s.commit t.nodes t.edges).desk.scheduler)
    (hAfter : t.scheduler.pending = false) : s.scheduler.pending = false ∧ Agrees s t := by
  rw [commit_desk] at hScheduler
  change t.scheduler = if _ then _ else _ at hScheduler
  rw [hScheduler] at hAfter
  cases hNeeds : needsLayout { s with nodes := t.nodes, edges := t.edges } with
  | true =>
    rw [hNeeds, if_pos rfl] at hAfter
    cases hAfter
  | false =>
    rw [hNeeds, if_neg Bool.false_ne_true] at hAfter
    exact ⟨hAfter, (hMirrors.not_needsLayout_iff_agrees hNodup).mp hNeeds⟩

theorem agrees_step (hMirrors : Mirrors built past s) (hWorks : Works s op (s.step op))
    (hNodup : ((s.step op).nodes.map Node.id).Nodup) (hKept : op.givesUp = false)
    (hPasses : (s.step op).passes = s.passes) (hAfter : (s.step op).scheduler.pending = false) :
    s.scheduler.pending = false ∧ Agrees s (s.step op) := by
  cases hWorks with
  | commits _ hDesk =>
    exact agrees_of_commit hMirrors hNodup (congrArg Desk.scheduler hDesk) hAfter
  | applies p placed hApplies =>
    have hDesk := hApplies.desk
    rw [← hApplies.adjusts.nodes, ← hApplies.adjusts.edges] at hDesk
    exact agrees_of_commit hMirrors hNodup (congrArg Desk.scheduler hDesk) hAfter
  | requests direction _ _ hDesk =>
    rw [show (s.step op).scheduler = _ from congrArg Desk.scheduler hDesk] at hAfter
    cases hAfter
  | starts clock _ _ hDesk =>
    have hNext : (s.step op).passes = s.passes + 1 := congrArg Desk.passes hDesk
    omega
  | begins token _ hStore hDesk | ends token _ hStore hDesk | waits clock _ hStore hDesk =>
    rw [show (s.step op).scheduler = _ from congrArg Desk.scheduler hDesk] at hAfter
    exact ⟨hAfter, agrees_of_store_eq hStore⟩
  | closes hOp =>
    rw [hOp] at hKept
    cases hKept

/-! ## Runs -/

variable (options : ViewOptions) (layoutOptions : LayoutOptions)

theorem agrees_run [LawfulCoordinate α] {before after : List (Operation α)}
    (hKept : ∀ op ∈ after, op.givesUp = false)
    (hPasses : ((create options layoutOptions).run (before ++ after)).passes =
      ((create options layoutOptions).run before).passes)
    (hAfter : ((create options layoutOptions).run (before ++ after)).scheduler.pending = false) :
    Agrees ((create options layoutOptions).run before)
      ((create options layoutOptions).run (before ++ after)) := by
  induction after using List.reverseRecOn with
  | nil =>
    rw [List.append_nil]
    exact agrees_of_store_eq rfl
  | append_singleton after op ih =>
    have hMirrors := mirrors_run options layoutOptions (before ++ after)
    have hNodup := (mirrors_run options layoutOptions (before ++ (after ++ [op]))).nodup_ids
    have hWorks := run_works options layoutOptions (before ++ after) op
    have hFirst := (passes_run_eq_iff (single_run options layoutOptions before) after).1
    have hLast := passes_le_step hWorks
    rw [← List.append_assoc, run_concat] at hPasses hAfter hNodup ⊢
    rw [← run_append] at hFirst
    obtain ⟨hPending, hAgrees⟩ := agrees_step hMirrors hWorks hNodup (hKept op (by simp))
      (by omega) hAfter
    exact (ih (fun other hIn => hKept other (List.mem_append_left _ hIn)) (by omega) hPending).trans
      hAgrees

/-- A node that was never moved by hand stands where the last pass drew it, if it was committed when
that pass was applied. -/
theorem drawn_of_last_applied {before after : List (Operation α)} {op : Operation α}
    (hLayered : ∀ other ∈ before ++ op :: after, other.Layered) {p : Pass α}
    {placed : List (Node α)}
    (hApplies : Applies ((create options layoutOptions).run before) op p placed)
    (hLater : Throughout (fun s other => ∀ q placed, ¬ Applies s other q placed)
      ((create options layoutOptions).run (before ++ [op])) after) {n : Node α}
    (hn : n ∈ ((create options layoutOptions).run (before ++ op :: after)).nodes)
    (hFree : n.id ∉ ((create options layoutOptions).run (before ++ op :: after)).pinned)
    (hCaptured : n.id ∈ p.nodes.map Node.id)
    (hCommitted : n.id ∈ ((create options layoutOptions).run before).nodes.map Node.id) :
    n.id ∉ p.pinned ∧ Drawn (p.request layoutOptions) n.id n.position := by
  have hNow : placeOf (((create options layoutOptions).run (before ++ op :: after)).remembered?
      n.id) = n.position := by
    rw [(mirrors_run options layoutOptions _).remembered hn]
    rfl
  have hMoves := not_moves_of_not_mem_pinned _ hFree
  rw [List.append_cons] at hLayered hMoves hNow
  have hThen := ((throughout_append _ (before ++ [op]) after).mp hMoves).1
  have hReaches : Reaches n.id p ((create options layoutOptions).run before) op :=
    ⟨⟨placed, hApplies⟩, hCaptured, hCommitted⟩
  have hStays := place_run_of_not_reached options layoutOptions hMoves hLayered <|
    hLater.imp fun s other hNone =>
      not_reaches_of_not_applies fun q placed hq => absurd hq (hNone q placed)
  refine ⟨not_mem_pinned_captured options layoutOptions ((throughout_concat _ before op).mp hThen).1
    (List.mem_of_find?_eq_some hApplies.inFlight), ?_⟩
  rcases place_step options layoutOptions hThen (hLayered op (by simp)) with
    ⟨q, hq, hDrawn⟩ | ⟨hNone, _⟩
  · obtain ⟨_, hAlso⟩ := hq.applies
    rw [hAlso.pass_eq hApplies, run_layoutOptions, ← run_concat, ← hStays, hNow] at hDrawn
    exact hDrawn
  · exact absurd ⟨p, hReaches⟩ hNone

/-- The pass was started for the nodes of the view, in their sizes, and drew each node that is not
pinned where it stands. -/
structure Pass.Draws (p : Pass α) (layoutOptions : LayoutOptions) (s : Session α) : Prop where
  distinct : (p.nodes.map Node.id).Nodup
  covers : p.Covers s
  drawn : ∀ n ∈ s.nodes, n.id ∉ s.pinned →
    n.id ∉ p.pinned ∧ Drawn (p.request layoutOptions) n.id n.position

/-- If no pass fails and none is given up, all that an idle diagram shows was drawn by one pass, for
the nodes and sizes that it shows. -/
theorem idle_view_is_drawn [LawfulCoordinate α] {ops : List (Operation α)}
    (hLayered : ∀ op ∈ ops, op.Layered) (hKept : ∀ op ∈ ops, op.givesUp = false)
    (hNoFailure : Throughout (fun s op => ¬ Fails s op) (create options layoutOptions) ops)
    (hIdle : ((create options layoutOptions).run ops).state = .idle) :
    ((create options layoutOptions).run ops).nodes = [] ∨
      ∃ p : Pass α, p.Draws layoutOptions ((create options layoutOptions).run ops) := by
  obtain ⟨hPending, hInFlight⟩ := (state_eq_idle_iff _).mp hIdle
  rcases fresh_run options layoutOptions ops hKept hNoFailure with
    hFresh | hEmpty | ⟨p, hCovers, hNewest, hIn | ⟨hLast, _⟩⟩
  · rw [hPending] at hFresh
    cases hFresh
  · exact .inl hEmpty
  · rw [hInFlight] at hIn
    cases hIn
  · obtain ⟨before, op, after, placed, rfl, hApplies, hLater⟩ := hLast
    have hAgrees := agrees_run options layoutOptions
      (fun other hOther => hKept other (List.mem_append_right _ hOther))
      (hNewest.symm.trans hApplies.newest) hPending
    refine .inr ⟨p, nodup_captured_run options layoutOptions before
      (List.mem_of_find?_eq_some hApplies.inFlight), hCovers, fun n hn hFree => ?_⟩
    have hIn := List.mem_map_of_mem (f := Node.id) hn
    exact drawn_of_last_applied options layoutOptions hLayered hApplies hLater hn hFree
      (hCovers.ids.mem_iff.mpr hIn) ((hAgrees.mem_ids_iff n.id).mpr hIn)

end TypeDiagram.Session
